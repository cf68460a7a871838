/-
What merging the documented parameters of a function with those of its code gives.
First come the parameters of the code in their order, each with its description
(`Describes`), and then the documented parameters that the code does not have. The
second part is made by a pass that looks for each name in a list that it extends on
the way; `appendMissing_eq` says what is appended without that list.
-/
import Mathlib.Data.List.Forall2
import ScriptAtlas.Extraction
import ScriptAtlas.Proofs.FirstOfEach

namespace ScriptAtlas.Extraction

variable {documented : List Param} {code : List CodeParam}

/-! ## The parameters of the code -/

/-- How a parameter of the code comes out: as the first documented one of its name, or with what the
code says of it where none is documented. -/
inductive Describes (documented : List Param) (c : CodeParam) : Param → Prop
  | documented {d : Param} (hfirst : IsFirst (·.name) documented d) (hname : d.name = c.name) :
    Describes documented c d
  | undocumented (hnone : ∀ d ∈ documented, d.name ≠ c.name) :
    Describes documented c (.undocumented c.name c.optional)

theorem Describes.name_eq {c : CodeParam} {p : Param} (h : Describes documented c p) :
    p.name = c.name := by
  cases h with
  | documented _ hname => exact hname
  | undocumented _ => rfl

/-- The parameter that a parameter of the code comes out as. -/
def described (documented : List Param) (c : CodeParam) : Param :=
  (documented.find? (·.name == c.name)).getD (.undocumented c.name c.optional)

theorem describes_described (documented : List Param) (c : CodeParam) :
    Describes documented c (described documented c) := by
  rw [described]
  cases hfind : documented.find? (·.name == c.name) with
  | none =>
    refine .undocumented fun d hd => ?_
    simpa using List.find?_eq_none.1 hfind d hd
  | some d =>
    obtain ⟨hname, before, after, hsplit, hbefore⟩ := List.find?_eq_some_iff_append.1 hfind
    have hname : d.name = c.name := by simpa using hname
    refine .documented ⟨before, after, hsplit, fun b hb => ?_⟩ hname
    change b.name ≠ d.name
    rw [hname]
    simpa using hbefore b hb

theorem forall₂_described (documented : List Param) (code : List CodeParam) :
    List.Forall₂ (Describes documented) code (code.map (described documented)) :=
  List.forall₂_map_right_iff.2 (List.forall₂_same.2 fun c _ => describes_described documented c)

theorem map_name_described (documented : List Param) (code : List CodeParam) :
    (code.map (described documented)).map (·.name) = code.map (·.name) := by
  rw [List.map_map]
  exact List.map_congr_left fun c _ => (describes_described documented c).name_eq

/-! ## The parameters that are only documented -/

/-- **What is appended** is the first documented parameter of each name that was not there. -/
theorem appendMissing_eq (merged documented : List Param) : appendMissing merged documented =
    merged ++ (firsts (·.name) documented).filter (·.name ∉ merged.map (·.name)) := by
  induction documented generalizing merged with
  | nil => simp [appendMissing]
  | cons d documented ih =>
    have hany : merged.any (·.name == d.name) = true ↔ d.name ∈ merged.map (·.name) := by simp
    rw [appendMissing, firsts_cons]
    by_cases hd : d.name ∈ merged.map (·.name)
    · -- A name that is there already is left out here, and its repetitions with it.
      rw [if_pos (hany.2 hd), ih, List.filter_cons_of_neg (by simpa using hd), List.filter_filter]
      congr 2
      funext p
      by_cases hp : p.name = d.name
      · simp only [hp, hd, not_true_eq_false, decide_false, Bool.false_and]
      · simp [hp]
    · rw [if_neg fun h => hd (hany.1 h), ih, List.filter_cons_of_pos (by simpa using hd),
        List.filter_filter, List.append_assoc, List.singleton_append]
      congr 3
      funext p
      simp [not_or]

/-- The documented parameters that the code does not have. -/
def onlyDocumented (documented : List Param) (code : List CodeParam) : List Param :=
  (firsts (·.name) documented).filter (·.name ∉ code.map (·.name))

theorem mem_onlyDocumented {d : Param} : d ∈ onlyDocumented documented code ↔
    IsFirst (·.name) documented d ∧ d.name ∉ code.map (·.name) := by
  rw [onlyDocumented, List.mem_filter, mem_firsts, decide_eq_true_eq]

theorem nodup_map_onlyDocumented (documented : List Param) (code : List CodeParam) :
    ((onlyDocumented documented code).map (·.name)).Nodup :=
  List.pairwise_map.2 ((pairwise_firsts (·.name) documented).filter _)

theorem mergeParams_eq (documented : List Param) (code : List CodeParam) :
    mergeParams documented code = code.map (described documented) ++ onlyDocumented documented code := by
  rw [mergeParams, appendMissing_eq, onlyDocumented, ← map_name_described documented code]
  rfl

theorem mem_map_mergeParams {d : Param} (hd : d ∈ documented) :
    d.name ∈ (mergeParams documented code).map (·.name) := by
  rw [mergeParams_eq, List.map_append, map_name_described, List.mem_append]
  by_cases hcode : d.name ∈ code.map (·.name)
  · exact .inl hcode
  · obtain ⟨first, hfirst, hname⟩ := exists_isFirst (·.name) hd
    refine .inr (List.mem_map.2 ⟨first, mem_onlyDocumented.2 ⟨hfirst, ?_⟩, hname⟩)
    rwa [hname]

/-- **Merging parameters loses and invents nothing.** The parameters of the code come first, with
their names and in their order, each described by the first documented one of its name if there is
one. Behind them stands, in the order of the documentation, the first documented parameter of every
other name, with no name twice and none that the code has. -/
theorem merged_params_lose_nothing (documented : List Param) (code : List CodeParam) :
    ∃ own extra, mergeParams documented code = own ++ extra ∧
      own.map (·.name) = code.map (·.name) ∧ List.Forall₂ (Describes documented) code own ∧
      extra.Sublist documented ∧
      (∀ d, d ∈ extra ↔ IsFirst (·.name) documented d ∧ d.name ∉ code.map (·.name)) ∧
      (extra.map (·.name)).Nodup ∧ (∀ d ∈ extra, d.name ∉ own.map (·.name)) ∧
      ∀ d ∈ documented, d.name ∈ (mergeParams documented code).map (·.name) := by
  have hnames := map_name_described documented code
  refine ⟨code.map (described documented), onlyDocumented documented code,
    mergeParams_eq documented code, hnames, forall₂_described documented code, ?_,
    fun d => mem_onlyDocumented, nodup_map_onlyDocumented documented code, fun d hd => ?_,
    fun d hd => mem_map_mergeParams hd⟩
  · exact List.filter_sublist.trans (firsts_sublist _ _)
  · rw [hnames]
    exact (mem_onlyDocumented.1 hd).2

/-- A parameter of that name and type. -/
def documentedAs (name type : String) : Param := ⟨name, .named type, "", false⟩

/-- Names repeated in the code and in the documentation, one that is only in the code, and one that
is only documented. -/
theorem repeatedNames_merged :
    let documented := [documentedAs "z" "any", documentedAs "a" "number", documentedAs "z" "string",
      documentedAs "a" "string"]
    let code := [⟨"b", true⟩, ⟨"a", false⟩, ⟨"a", true⟩]
    mergeParams documented code = [Param.undocumented "b" true, documentedAs "a" "number",
      documentedAs "a" "number", documentedAs "z" "any"] ∧
    (documentedAs "z" "string").name ∈ (mergeParams documented code).map (·.name) := by
  intro documented code
  obtain ⟨-, -, -, -, -, -, -, -, -, hall⟩ := merged_params_lose_nothing documented code
  exact ⟨by decide, hall (documentedAs "z" "string") (by decide)⟩

end ScriptAtlas.Extraction
