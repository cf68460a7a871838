/-
What a search by name answers. Names are searched, and each name that is found is
taken back to the object or the function that it stands for. A name that could
not be taken back would be left out of the answer without a word.

None is. What a search finds is among the names it was given (`search_perm`), and
each of these has its entry: an object because the index keeps its names and its
table of places in step, a function because its name was taken from it. So the
names of the answer are the names found, in their order (`map_key_filterMap`), and
what is answered are the entries whose names match, each once.
-/
import ScriptAtlas.Proofs.FirstOfEach
import ScriptAtlas.Proofs.IndexOrder
import ScriptAtlas.Proofs.SearchOrder

namespace ScriptAtlas

/-! ## Entries by their keys -/

section

variable {α κ : Type} {key : α → κ} {get? : κ → Option α} {ks : List κ} {a : α} {k : κ}

/-- An entry that is found under a key has that key. -/
def FindsKeyed (key : α → κ) (get? : κ → Option α) : Prop :=
  ∀ k a, get? k = some a → key a = k

/-- If no key lacks its entry, the keys of the entries are the keys that were looked up. -/
theorem map_key_filterMap (hkeyed : FindsKeyed key get?) (hall : ∀ k ∈ ks, (get? k).isSome = true) :
    (ks.filterMap get?).map key = ks := by
  induction ks with
  | nil => rfl
  | cons k ks ih =>
    obtain ⟨hk, hks⟩ := List.forall_mem_cons.1 hall
    obtain ⟨a, ha⟩ := Option.isSome_iff_exists.1 hk
    rw [List.filterMap_cons_some ha, List.map_cons, hkeyed k a ha, ih hks]

theorem mem_filterMap_keyed (hkeyed : FindsKeyed key get?) :
    a ∈ ks.filterMap get? ↔ key a ∈ ks ∧ get? (key a) = some a := by
  rw [List.mem_filterMap]
  constructor
  · rintro ⟨k, hk, ha⟩
    obtain rfl := hkeyed k a ha
    exact ⟨hk, ha⟩
  · rintro ⟨hk, ha⟩
    exact ⟨_, hk, ha⟩

variable [DecidableEq κ] {xs : List α}

theorem eraseDups_eq_firsts (ks : List κ) : ks.eraseDups = firsts id ks := by
  induction ks using List.reverseRecOn with
  | nil => rfl
  | append_singleton ks k ih =>
    rw [List.eraseDups_append, firsts_id_concat, ih, List.cons_removeAll]
    by_cases hk : k ∈ ks <;> simp [hk, List.eraseDups_cons]

/-- The entry that a search through a list stops at is the first one of its key. -/
theorem find?_eq_some_iff_isFirst :
    xs.find? (key · == k) = some a ↔ IsFirst key xs a ∧ key a = k := by
  rw [List.find?_eq_some_iff_append, beq_iff_eq, and_comm]
  refine and_congr_left fun hk => exists_congr fun before => exists_congr fun after => ?_
  refine and_congr_right fun _ => forall₂_congr fun b _ => ?_
  rw [hk, Bool.not_eq_true', beq_eq_false_iff_ne]

end

/-! ## The names found -/

namespace NameSearch

variable {names : List String} {typed name : String}

/-- A search finds the names that match, each as often as it stands in the list. -/
theorem search_perm (names : List String) (typed : String) :
    (search names typed).Perm (names.filter fun name => Matches typed name) := by
  have hsorted := (List.mergeSort_perm (names.zipIdx.filter fun x => Matches typed x.1)
    fun a b => (hitOf typed a.1).atLeast (hitOf typed b.1)).map Prod.fst
  have hnames : (names.zipIdx.filter fun x => Matches typed x.1).map Prod.fst =
      names.filter fun name => Matches typed name := by
    conv_rhs => rw [← List.zipIdx_map_fst 0 names, List.filter_map]
    rfl
  rw [search_eq_found, ← hnames]
  exact hsorted

theorem mem_search : name ∈ search names typed ↔ name ∈ names ∧ Matches typed name := by
  rw [(search_perm names typed).mem_iff, List.mem_filter, decide_eq_true_eq]

theorem nodup_search (h : names.Nodup) : (search names typed).Nodup :=
  (search_perm names typed).nodup_iff.2 (h.filter _)

end NameSearch

open NameSearch

/-! ## Objects -/

namespace SymbolIndex

variable {x : SymbolIndex} {typed : String} {o : ScriptObject}

theorem InStep.findsKeyed (h : InStep x) : FindsKeyed (·.name) x.lookup :=
  fun _ _ ho => (h.lookup_eq_some.1 ho).2

/-- Every name of the index has its object. -/
theorem InStep.lookup_isSome (h : InStep x) : ∀ name ∈ x.names, (x.lookup name).isSome = true := by
  intro name hname
  obtain ⟨o, ho, rfl⟩ := List.mem_map.1 hname
  rw [h.lookup_eq_some.2 ⟨ho, rfl⟩]
  rfl

theorem map_name_searchObjects (h : InStep x) :
    (x.searchObjects typed).map (·.name) = search x.names typed :=
  map_key_filterMap h.findsKeyed fun name hname => h.lookup_isSome name (mem_search.1 hname).1

theorem mem_searchObjects (h : InStep x) :
    o ∈ x.searchObjects typed ↔ o ∈ x.objects ∧ Matches typed o.name := by
  rw [searchObjects, mem_filterMap_keyed h.findsKeyed, mem_search, h.lookup_eq_some]
  constructor
  · rintro ⟨⟨-, hmatch⟩, ho, -⟩
    exact ⟨ho, hmatch⟩
  · rintro ⟨ho, hmatch⟩
    exact ⟨⟨List.mem_map_of_mem ho, hmatch⟩, ho, rfl⟩

end SymbolIndex

/-! ## Functions -/

namespace ScriptObject

variable {o : ScriptObject} {typed : String} {f : Function}

theorem findsKeyed_functions (o : ScriptObject) :
    FindsKeyed Function.name fun name => o.functions.find? (·.name == name) :=
  fun _ _ hf => (find?_eq_some_iff_isFirst.1 hf).2

theorem map_name_searchFunctions (o : ScriptObject) (typed : String) :
    (o.searchFunctions typed).map (·.name) = search (firsts id (o.functions.map (·.name))) typed := by
  rw [← eraseDups_eq_firsts]
  refine map_key_filterMap o.findsKeyed_functions fun name hname => ?_
  -- A name that is found was taken from some function, so a search through the functions stops.
  obtain ⟨f, hf, hname⟩ := List.mem_map.1 (List.mem_eraseDups.1 (mem_search.1 hname).1)
  exact List.find?_isSome.2 ⟨f, hf, beq_iff_eq.2 hname⟩

theorem mem_searchFunctions :
    f ∈ o.searchFunctions typed ↔ IsFirst (·.name) o.functions f ∧ Matches typed f.name := by
  rw [searchFunctions, mem_filterMap_keyed o.findsKeyed_functions, mem_search, List.mem_eraseDups,
    find?_eq_some_iff_isFirst]
  constructor
  · rintro ⟨⟨-, hmatch⟩, hfirst, -⟩
    exact ⟨hfirst, hmatch⟩
  · rintro ⟨hfirst, hmatch⟩
    have hf : f ∈ o.functions := (firsts_sublist _ _).subset (mem_firsts.2 hfirst)
    exact ⟨⟨List.mem_map_of_mem hf, hmatch⟩, hfirst, rfl⟩

end ScriptObject

/-- **A search loses no match and repeats none.** Whatever was done to an index that started from a
catalog, the objects found have the names that the search through its names finds, in that order and
each once, and they are the objects whose names match. The functions found in an object have the
names that the search through the names of its functions finds, where each name stands once and where
it first appears; each is the first function of its name, and all first functions whose names match
are found. -/
theorem SymbolIndex.search_answers_every_match (c : Catalog) (changes : List Change) (typed : String) :
    let x := changes.foldl Change.apply (ofCatalog c)
    ((x.searchObjects typed).map (·.name) = search x.names typed ∧
      (search x.names typed).Nodup ∧
      ∀ o, o ∈ x.searchObjects typed ↔ o ∈ x.objects ∧ Matches typed o.name) ∧
    ∀ o : ScriptObject,
      (o.searchFunctions typed).map (·.name) =
        search (firsts id (o.functions.map (·.name))) typed ∧
      (o.searchFunctions typed).Pairwise (fun f g => f.name ≠ g.name) ∧
      ∀ f, f ∈ o.searchFunctions typed ↔ IsFirst (·.name) o.functions f ∧ Matches typed f.name := by
  intro x
  have hstep : InStep x := ((traces_ofCatalog c).applyAll changes).inStep
  refine ⟨⟨map_name_searchObjects hstep, nodup_search hstep.nodup, fun o => mem_searchObjects hstep⟩,
    fun o => ⟨o.map_name_searchFunctions typed, ?_, fun f => ScriptObject.mem_searchFunctions⟩⟩
  have hnames : (search (firsts id (o.functions.map (·.name))) typed).Nodup :=
    nodup_search (nodup_firsts_id _)
  rw [← o.map_name_searchFunctions] at hnames
  exact List.pairwise_map.1 hnames

end ScriptAtlas
