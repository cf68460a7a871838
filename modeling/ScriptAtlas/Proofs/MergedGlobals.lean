/-
What merging the globals of several files keeps. The merge goes through the files
function by function and looks back at the group of the function's name; what comes
out is the first function of each signature, with the functions of one name put
together (`merge_functions`). Each further function is one step on groups
(`addFunction_groups`), and a step on the groups of what was kept so far gives the
groups of what is kept then.

Since keeping and grouping again change nothing, files can be merged in stages: the
merged globals of some of them stand in for these files (`merge_append`).
-/
import ScriptAtlas.Globals
import ScriptAtlas.Proofs.FirstOfEach

namespace ScriptAtlas

/-- What functions of one signature agree in. -/
structure Signature where
  name : String
  params : List Param
  returns : TypeInfo
  deriving DecidableEq

namespace Function

variable {f g : Function}

/-- The name, the parameters and the result, whatever the place and the description are. -/
def signature (f : Function) : Signature := ⟨f.name, f.params, f.returns⟩

theorem sameSignature_iff : f.sameSignature g = true ↔ f.signature = g.signature := by
  simp [sameSignature, signature, and_assoc]

theorem name_eq_of_signature_eq (h : f.signature = g.signature) : f.name = g.name :=
  (Signature.mk.inj h).1

end Function

namespace Globals

variable {f : Function}

/-! ## One more function -/

/-- The group of functions of one name with one more, if none has its signature. -/
def joined (f : Function) (fs : List Function) : List Function :=
  if fs.any (·.sameSignature f) then fs else fs ++ [f]

theorem addFunction_map_of_mem {names : List String} {members : String → List Function}
    (hnodup : names.Nodup) (hf : f.name ∈ names) :
    addFunction f (names.map fun n => (n, members n)) =
      names.map fun n => (n, if n = f.name then joined f (members n) else members n) := by
  induction names with
  | nil => simp at hf
  | cons n names ih =>
    obtain ⟨hn, hnodup⟩ := List.nodup_cons.1 hnodup
    rw [List.map_cons, List.map_cons, addFunction]
    by_cases hname : n = f.name
    · rw [if_pos hname, if_pos hname, joined]
      congr 1
      refine List.map_congr_left fun m hm => ?_
      have hother : m ≠ f.name := by
        rintro rfl
        exact hn (hname ▸ hm)
      rw [if_neg hother]
    · rw [if_neg hname, if_neg hname, ih hnodup (List.mem_of_ne_of_mem (Ne.symm hname) hf)]

theorem addFunction_map_of_not_mem {names : List String} {members : String → List Function}
    (hf : f.name ∉ names) : addFunction f (names.map fun n => (n, members n)) =
      names.map (fun n => (n, members n)) ++ [(f.name, [f])] := by
  induction names with
  | nil => rfl
  | cons n names ih =>
    obtain ⟨hn, hnames⟩ : f.name ≠ n ∧ f.name ∉ names := by simpa using hf
    rw [List.map_cons, addFunction, if_neg hn.symm, ih hnames, List.cons_append]

/-- A signature is looked for in the group of its name only; it cannot be in another. -/
theorem any_sameSignature_filter (f : Function) (fs : List Function) :
    (fs.filter (·.name = f.name)).any (·.sameSignature f) = true ↔
      f.signature ∈ fs.map Function.signature := by
  simp only [List.any_eq_true, mem_filter_key, List.mem_map, Function.sameSignature_iff]
  constructor
  · rintro ⟨g, ⟨hg, -⟩, hsame⟩
    exact ⟨g, hg, hsame⟩
  · rintro ⟨g, hg, hsame⟩
    exact ⟨g, ⟨hg, Function.name_eq_of_signature_eq hsame⟩, hsame⟩

/-- **One more function** joins what was kept before the groups are made. -/
theorem addFunction_groups (f : Function) (fs : List Function) :
    addFunction f (groups (·.name) fs) = groups (·.name)
      (if f.signature ∈ fs.map Function.signature then fs else fs ++ [f]) := by
  rw [groups]
  by_cases hname : f.name ∈ fs.map (·.name)
  · rw [addFunction_map_of_mem (nodup_firsts_id _) (mem_firsts_id.2 hname)]
    split
    · rename_i hsame
      refine List.map_congr_left fun n _ => ?_
      split
      · rename_i hn
        subst hn
        rw [joined, if_pos ((any_sameSignature_filter f fs).2 hsame)]
      · rfl
    · rename_i hnew
      rw [groups, List.map_append, List.map_singleton, firsts_id_concat, if_pos hname]
      refine List.map_congr_left fun n _ => ?_
      rw [List.filter_append]
      by_cases hn : n = f.name
      · subst hn
        have hnone : ¬ (fs.filter (·.name = f.name)).any (·.sameSignature f) = true :=
          fun h => hnew ((any_sameSignature_filter f fs).1 h)
        rw [if_pos rfl, joined, if_neg hnone, List.filter_singleton]
        simp
      · simp [hn, Ne.symm hn]
  · -- A new name comes with a new signature, and its group is the function alone.
    have hnew : f.signature ∉ fs.map Function.signature := by
      intro h
      obtain ⟨g, hg, hsame⟩ := List.mem_map.1 h
      exact hname (List.mem_map.2 ⟨g, hg, Function.name_eq_of_signature_eq hsame⟩)
    have hnone : fs.filter (·.name = f.name) = [] := by
      refine List.filter_eq_nil_iff.2 fun g hg hgf => hname ?_
      exact List.mem_map.2 ⟨g, hg, of_decide_eq_true hgf⟩
    rw [if_neg hnew, addFunction_map_of_not_mem (fun h => hname (mem_firsts_id.1 h)), groups,
      List.map_append, List.map_singleton, firsts_id_concat, if_neg hname, List.map_append]
    congr 1
    · refine List.map_congr_left fun n hn => ?_
      have hother : f.name ≠ n := by
        rintro rfl
        exact hname (mem_firsts_id.1 hn)
      simp [hother]
    · simp [hnone]

/-- **All functions**: the groups of the first of each signature. -/
theorem group_eq (fs : List Function) : group fs = groups (·.name) (firsts Function.signature fs) := by
  induction fs using List.reverseRecOn with
  | nil => rfl
  | append_singleton fs f ih =>
    have hstep : group (fs ++ [f]) = addFunction f (group fs) := by
      rw [group, List.foldl_append]
      rfl
    rw [hstep, ih, addFunction_groups, firsts_concat]
    simp only [mem_map_firsts]

theorem merge_functions (files : List Declarations) : (merge files).functions =
    grouped (·.name) (firsts Function.signature (files.flatMap (·.functions))) := by
  rw [merge, group_eq, grouped]

/-! ## Merging in stages -/

/-- Merged globals as the declarations of one file. -/
def declarations (merged : Globals) : Declarations where
  functions := merged.functions
  vars := merged.properties

theorem pairwise_signature_grouped (fs : List Function) :
    (grouped (·.name) (firsts Function.signature fs)).Pairwise
      fun f g => f.signature ≠ g.signature :=
  ((grouped_perm _ _).pairwise_iff fun h => h.symm).2 (pairwise_firsts _ _)

/-- **Merging in stages** is merging at once. -/
theorem merge_append (files more : List Declarations) :
    merge (files ++ more) = merge ((merge files).declarations :: more) := by
  refine congrArg₂ Globals.mk ?_ ?_
  · change (merge (files ++ more)).functions = (merge ((merge files).declarations :: more)).functions
    rw [merge_functions, merge_functions, List.flatMap_append, List.flatMap_cons, declarations,
      merge_functions, firsts_append, firsts_append, firsts_eq_self (pairwise_signature_grouped _),
      grouped_append_grouped]
    congr 3
    funext f
    have hsame : f.signature ∈ (grouped (·.name) (firsts Function.signature
        (files.flatMap (·.functions)))).map Function.signature ↔
          f.signature ∈ (files.flatMap (·.functions)).map Function.signature := by
      rw [((grouped_perm _ _).map _).mem_iff, mem_map_firsts]
    simp only [hsame]
  · exact List.flatMap_append

/-! ## What is kept -/

/-- **Merging keeps the first function of each signature**, grouped by name. Names stand in the order
in which they first appear, the kept functions of a name in the order of the files and with nothing
between them; no two have one signature and none is lost. Properties are all there. The merged globals
of some files stand in for them when more files are merged. -/
theorem merge_keeps_first_of_each_signature (files : List Declarations) :
    let input := files.flatMap (·.functions)
    let kept := firsts Function.signature input
    let merged := merge files
    merged.functions = grouped (·.name) kept ∧ merged.properties = files.flatMap (·.vars) ∧
    firsts id (merged.functions.map (·.name)) = firsts id (input.map (·.name)) ∧
    (∀ name, merged.functions.filter (·.name = name) = kept.filter (·.name = name)) ∧
    merged.functions.Pairwise (fun f g => f.sameSignature g = false) ∧
    (∀ f, f ∈ merged.functions ↔ IsFirst Function.signature input f) ∧
    (∀ f ∈ input, ∃ g ∈ merged.functions, g.sameSignature f = true) ∧
    (∀ before f between g after, merged.functions = before ++ f :: (between ++ g :: after) →
      f.name = g.name → ∀ h ∈ between, h.name = f.name) ∧
    ∀ more, merge (files ++ more) = merge (merged.declarations :: more) := by
  intro input kept merged
  have hmerged : merged.functions = grouped (·.name) kept := merge_functions files
  have hfirst (f : Function) : f ∈ merged.functions ↔ IsFirst Function.signature input f := by
    rw [hmerged, mem_grouped, mem_firsts]
  refine ⟨hmerged, rfl, ?_, fun name => ?_, ?_, hfirst, fun f hf => ?_, ?_, merge_append files⟩
  · rw [hmerged, firsts_map_grouped]
    exact firsts_map_firsts (fun _ _ h => Function.name_eq_of_signature_eq h) input
  · rw [hmerged, filter_grouped]
  · rw [hmerged]
    refine (pairwise_signature_grouped input).imp fun hne => ?_
    exact Bool.eq_false_iff.2 fun h => hne (Function.sameSignature_iff.1 h)
  · obtain ⟨g, hg, hsame⟩ := exists_isFirst Function.signature hf
    exact ⟨g, (hfirst g).2 hg, Function.sameSignature_iff.2 hsame⟩
  · intro before f between g after hsplit hname
    exact key_eq_of_between (hmerged ▸ hsplit) hname

/-- A function with one parameter. -/
def ofOneParam (name type : String) : Function where
  name := name
  params := [⟨"a", .named type, "", false⟩]
  returns := .void
  description := ""
  location := none

/-- Three files that disagree on `f` and agree on `g`. -/
def conflictingFiles : List Declarations :=
  [{ functions := [ofOneParam "f" "number", ofOneParam "g" "string"] },
    { functions := [ofOneParam "g" "string", ofOneParam "f" "string"] },
    { functions := [ofOneParam "f" "number", ofOneParam "f" "boolean"] }]

theorem conflictingFiles_merged :
    let merged := (merge conflictingFiles).functions
    merged = [] ++ ofOneParam "f" "number" ::
      ([ofOneParam "f" "string"] ++ ofOneParam "f" "boolean" :: [ofOneParam "g" "string"]) ∧
    (ofOneParam "f" "string").name = "f" ∧
    (∃ g ∈ merged, g.sameSignature (ofOneParam "g" "string") = true) ∧
    merge (conflictingFiles ++ conflictingFiles) =
      merge ((merge conflictingFiles).declarations :: conflictingFiles) := by
  obtain ⟨-, -, -, -, -, -, hkept, hbetween, hstages⟩ :=
    merge_keeps_first_of_each_signature conflictingFiles
  have hmerged : (merge conflictingFiles).functions = [] ++ ofOneParam "f" "number" ::
      ([ofOneParam "f" "string"] ++ ofOneParam "f" "boolean" :: [ofOneParam "g" "string"]) := by decide
  refine ⟨hmerged, ?_, hkept (ofOneParam "g" "string") (by decide), hstages conflictingFiles⟩
  exact hbetween _ _ _ _ _ hmerged rfl _ List.mem_cons_self

end Globals

end ScriptAtlas
