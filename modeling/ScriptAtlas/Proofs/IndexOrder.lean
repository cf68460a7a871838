/-
The symbol index as a map that remembers the order of insertion. The objects
and the table of their places are two accounts of one thing; `InStep` says
that they agree, and every change keeps them so.

`Traces` relates an index to all that was ever done to it: the names are those
inserted, each where it came first, and under each name stands what was
inserted last. One change keeps it (`Traces.apply`), so all do
(`Traces.applyAll`), and `index_traces_changes` says it of every index that
starts from a catalog.
-/
import Mathlib.Data.List.Nodup
import ScriptAtlas.Catalog

namespace ScriptAtlas.SymbolIndex

/-! ## Objects and places -/

/-- The table sends a name to the place of the object that has it, and to no other. -/
def InStep (x : SymbolIndex) : Prop :=
  ∀ name i, x.place? name = some i ↔ (x.objects[i]?).map (·.name) = some name

section

variable {x : SymbolIndex} {name : String} {i : Nat}

theorem InStep.empty (aliases : AliasTable) : InStep { aliases } := by
  intro name i
  simp [place?]

theorem InStep.lt_size (h : InStep x) (hp : x.place? name = some i) : i < x.objects.length := by
  obtain ⟨o, ho, -⟩ := Option.map_eq_some_iff.1 ((h name i).1 hp)
  exact (List.getElem?_eq_some_iff.1 ho).1

/-- A name has a place exactly when an object has the name. -/
theorem InStep.place?_eq_none (h : InStep x) : x.place? name = none ↔ name ∉ x.names := by
  rw [Option.eq_none_iff_forall_not_mem, names, List.mem_iff_getElem?, not_exists]
  refine forall_congr' fun i => ?_
  rw [Option.mem_def, h, List.getElem?_map]

/-- Two objects of one name would have one place. -/
theorem InStep.nodup (h : InStep x) : x.names.Nodup := by
  rw [List.nodup_iff_pairwise_ne, List.pairwise_iff_getElem]
  intro i j hi hj hij heq
  have place (k : Nat) (hk : k < x.names.length) : x.place? x.names[k] = some k := by
    rw [h, ← List.getElem?_map]
    exact List.getElem?_eq_getElem hk
  have hsame := (place i hi).symm.trans (heq ▸ place j hj)
  exact absurd (Option.some.inj hsame) (Nat.ne_of_lt hij)

theorem InStep.lookup_eq_some (h : InStep x) {o : ScriptObject} :
    x.lookup name = some o ↔ o ∈ x.objects ∧ o.name = name := by
  rw [lookup, Option.bind_eq_some_iff, List.mem_iff_getElem?]
  constructor
  · rintro ⟨i, hp, ho⟩
    have hname := (h name i).1 hp
    rw [ho] at hname
    exact ⟨⟨i, ho⟩, Option.some.inj hname⟩
  · rintro ⟨⟨i, ho⟩, rfl⟩
    exact ⟨i, (h _ i).2 (by rw [ho]; rfl), ho⟩

end

/-! ## One more object -/

section

variable {x : SymbolIndex} (o : ScriptObject)

@[simp] theorem aliases_insert : (x.insert o).aliases = x.aliases := by
  unfold insert
  split <;> rfl

/-- What is inserted under a known name takes the place of the object with that name. -/
theorem objects_insert_of_mem (h : InStep x) (hm : o.name ∈ x.names) :
    (x.insert o).objects = x.objects.map fun p => if p.name = o.name then o else p := by
  cases hp : x.place? o.name with
  | none => exact absurd hm ((h.place?_eq_none).1 hp)
  | some i =>
    simp only [insert, hp]
    refine List.ext_getElem? fun j => ?_
    rw [List.getElem?_map]
    by_cases hij : i = j
    · subst hij
      obtain ⟨p, hpi, hname⟩ := Option.map_eq_some_iff.1 ((h _ i).1 hp)
      rw [List.getElem?_set_self (h.lt_size hp), hpi]
      simp [hname]
    · rw [List.getElem?_set_ne hij]
      cases hpj : x.objects[j]? with
      | none => rfl
      | some p =>
        have hne : p.name ≠ o.name := by
          intro hname
          have hj := (h o.name j).2 (by rw [hpj, ← hname]; rfl)
          exact hij (Option.some.inj (hp.symm.trans hj))
        simp [hne]

/-- What is inserted under a new name comes last. -/
theorem objects_insert_of_not_mem (h : InStep x) (hm : o.name ∉ x.names) :
    (x.insert o).objects = x.objects ++ [o] := by
  simp only [insert, (h.place?_eq_none).2 hm]

theorem names_insert (h : InStep x) :
    (x.insert o).names = if o.name ∈ x.names then x.names else x.names ++ [o.name] := by
  split
  · rename_i hm
    rw [names, objects_insert_of_mem o h hm, List.map_map, names]
    refine List.map_congr_left fun p _ => ?_
    by_cases hp : p.name = o.name <;> simp [hp]
  · rename_i hm
    rw [names, objects_insert_of_not_mem o h hm, List.map_append]
    rfl

theorem place?_insert_of_some {i : Nat} (hp : x.place? o.name = some i) (name : String) :
    (x.insert o).place? name = x.place? name := by
  simp only [insert, hp]
  rfl

theorem place?_insert_of_none (hp : x.place? o.name = none) (name : String) :
    (x.insert o).place? name = if name = o.name then some x.objects.length else x.place? name := by
  simp only [insert, hp]
  by_cases hn : name = o.name
  · simp [place?, hn]
  · simp [place?, List.lookup_cons, beq_false_of_ne hn, hn]

/-- **An insertion** keeps objects and places in step. -/
theorem InStep.insert (h : InStep x) : InStep (x.insert o) := by
  intro name j
  rw [← List.getElem?_map, ← names, names_insert o h]
  cases hp : x.place? o.name with
  | some i =>
    have hm : o.name ∈ x.names := by
      by_contra hn
      simp [(h.place?_eq_none).2 hn] at hp
    rw [if_pos hm, place?_insert_of_some o hp, h, names, List.getElem?_map]
  | none =>
    have hm : o.name ∉ x.names := (h.place?_eq_none).1 hp
    have hlen : x.names.length = x.objects.length := List.length_map ..
    rw [if_neg hm, place?_insert_of_none o hp, ← hlen]
    by_cases hj : j < x.names.length
    · -- An older name keeps its place, and the new one stands after all of them.
      rw [List.getElem?_append_left hj, names, List.getElem?_map, ← h]
      split
      · rename_i hname
        subst hname
        simp only [hp, Option.some.injEq, reduceCtorEq, iff_false]
        exact fun hlj => absurd hj (hlj ▸ Nat.lt_irrefl _)
      · rfl
    · rw [List.getElem?_append_right (Nat.le_of_not_lt hj)]
      have hold : x.place? name ≠ some j := fun hpj => hj (hlen ▸ h.lt_size hpj)
      grind

theorem lookup_insert (h : InStep x) (name : String) :
    (x.insert o).lookup name = if o.name = name then some o else x.lookup name := by
  simp only [lookup]
  cases hp : x.place? o.name with
  | some i =>
    rw [place?_insert_of_some o hp]
    simp only [insert, hp]
    split
    · rename_i hname
      rw [← hname, hp, Option.bind_some, List.getElem?_set_self (h.lt_size hp)]
    · rename_i hname
      refine Option.bind_congr fun j hj => List.getElem?_set_ne fun hij => hname ?_
      -- One place has one name.
      exact Option.some.inj (((h _ i).1 hp).symm.trans (hij ▸ (h _ j).1 hj))
  | none =>
    rw [place?_insert_of_none o hp]
    simp only [insert, hp]
    by_cases hname : o.name = name
    · simp [hname]
    · rw [if_neg hname, if_neg (Ne.symm hname)]
      exact Option.bind_congr fun j hj => List.getElem?_append_left (h.lt_size hj)

end

/-! ## Everything that was done -/

/-- What can be done to an index. -/
inductive Change where
  | insert (o : ScriptObject)
  | installGlobals (g : Globals)

namespace Change

/-- The index after the change. -/
def apply (x : SymbolIndex) : Change → SymbolIndex
  | insert o => x.insert o
  | installGlobals g => x.installGlobals g

/-- The name under which the change inserts an object. -/
def name : Change → String
  | insert o => o.name
  | installGlobals _ => globalsName

end Change

/-- The globals with new functions and properties. Globals that are not there yet have nothing else. -/
def globalsWith (g : Globals) (known : Option ScriptObject) : ScriptObject :=
  { known.getD { name := globalsName } with functions := g.functions, properties := g.properties }

/-- What was inserted last under a name. The changes are listed backwards. -/
def latest? (name : String) : List Change → Option ScriptObject
  | [] => none
  | .insert o :: earlier => if o.name = name then some o else latest? name earlier
  | .installGlobals g :: earlier =>
    if globalsName = name then some (globalsWith g (latest? globalsName earlier))
    else latest? name earlier

/-- The index is what the changes made of an empty one. -/
structure Traces (x : SymbolIndex) (changes : List Change) : Prop where
  inStep : InStep x
  names : x.names = (changes.map Change.name).eraseDups
  lookup : ∀ name, x.lookup name = latest? name changes.reverse

section

variable {x : SymbolIndex} {changes : List Change}

/-- The globals keep their name. -/
theorem name_globalsWith (h : InStep x) (g : Globals) :
    (globalsWith g (x.lookup globalsName)).name = globalsName := by
  cases hl : x.lookup globalsName with
  | none => rfl
  | some o => exact (h.lookup_eq_some.1 hl).2

/-- Whatever a change does, it inserts one object under its name. -/
theorem Traces.insertLast {c : Change} {o : ScriptObject} (h : Traces x changes)
    (hname : o.name = c.name)
    (hlast : ∀ name, latest? name (c :: changes.reverse) =
      if o.name = name then some o else latest? name changes.reverse) :
    Traces (x.insert o) (changes ++ [c]) where
  inStep := h.inStep.insert o
  names := by
    rw [names_insert o h.inStep, h.names, List.map_append, List.eraseDups_append, hname,
      List.map_singleton]
    simp only [List.mem_eraseDups]
    by_cases hm : c.name ∈ changes.map Change.name
    · rw [if_pos hm, List.cons_removeAll, if_neg (by simpa using hm)]
      simp
    · rw [if_neg hm, List.cons_removeAll, if_pos (by simpa using hm)]
      rfl
  lookup name := by
    rw [lookup_insert o h.inStep, h.lookup, List.reverse_append, List.reverse_singleton,
      List.singleton_append, hlast]

/-- **A change** keeps the account. -/
theorem Traces.apply (h : Traces x changes) (c : Change) : Traces (c.apply x) (changes ++ [c]) := by
  cases c with
  | insert o => exact h.insertLast rfl fun _ => rfl
  | installGlobals g =>
    have hname := name_globalsWith h.inStep g
    refine h.insertLast (o := globalsWith g (x.lookup globalsName)) hname fun name => ?_
    rw [hname, h.lookup]
    rfl

theorem Traces.applyAll (h : Traces x changes) (more : List Change) :
    Traces (more.foldl Change.apply x) (changes ++ more) := by
  induction more generalizing x changes with
  | nil => simpa using h
  | cons c more ih =>
    rw [List.append_cons]
    exact ih (h.apply c)

theorem aliases_applyAll :
    ∀ (more : List Change) (x : SymbolIndex), (more.foldl Change.apply x).aliases = x.aliases
  | [], _ => rfl
  | .insert o :: more, x => by
    rw [List.foldl_cons, aliases_applyAll more]
    exact aliases_insert o
  | .installGlobals g :: more, x => by
    rw [List.foldl_cons, aliases_applyAll more]
    exact aliases_insert _

/-- To install globals is to change the functions and properties of one object, or to put one that
has nothing else at the end. -/
theorem objects_installGlobals (h : InStep x) (g : Globals) :
    (x.installGlobals g).objects =
      if globalsName ∈ x.names then
        x.objects.map fun o =>
          if o.name = globalsName then
            { o with functions := g.functions, properties := g.properties }
          else o
      else x.objects ++
        [{ name := globalsName, functions := g.functions, properties := g.properties }] := by
  have hname := name_globalsWith h g
  rw [show x.installGlobals g = x.insert (globalsWith g (x.lookup globalsName)) from rfl]
  split
  · rename_i hm
    rw [objects_insert_of_mem _ h (by rwa [hname]), hname]
    refine List.map_congr_left fun o ho => ?_
    split
    · rename_i hglobals
      rw [h.lookup_eq_some.2 ⟨ho, hglobals⟩]
      rfl
    · rfl
  · rename_i hm
    have hl : x.lookup globalsName = none := by
      rw [lookup, (h.place?_eq_none).2 hm, Option.bind_none]
    rw [objects_insert_of_not_mem _ h (by rwa [hname]), hl]
    rfl

end

/-- The index of a catalog is what inserting the objects of the catalog makes of an empty one. -/
theorem ofCatalog_eq (c : Catalog) :
    ofCatalog c = (c.objects.map Change.insert).foldl Change.apply { aliases := c.aliases } := by
  rw [ofCatalog, List.foldl_map]
  rfl

theorem traces_ofCatalog (c : Catalog) : Traces (ofCatalog c) (c.objects.map Change.insert) := by
  have start : Traces ({ aliases := c.aliases } : SymbolIndex) [] :=
    ⟨.empty c.aliases, rfl, fun _ => rfl⟩
  rw [ofCatalog_eq]
  exact start.applyAll _

/-- **The index is a map that remembers the order of insertion.** Whatever is inserted or installed
after the catalog: names are distinct, the table of places sends each to where its object stands,
the names stand in the order in which they came first, under each stands what was inserted last, and
installing globals touches only the object that is reserved for them. -/
theorem index_traces_changes (c : Catalog) (changes : List Change) :
    let x := changes.foldl Change.apply (ofCatalog c)
    let history := c.objects.map Change.insert ++ changes
    x.names.Nodup ∧
    (∀ name i, x.place? name = some i ↔ ∃ o, x.objects[i]? = some o ∧ o.name = name) ∧
    x.names = (history.map Change.name).eraseDups ∧
    (∀ name, x.lookup name = latest? name history.reverse) ∧
    x.aliases = c.aliases ∧
    ∀ g, (x.installGlobals g).aliases = x.aliases ∧
      (x.installGlobals g).objects =
        if globalsName ∈ x.names then
          x.objects.map fun o =>
            if o.name = globalsName then
              { o with functions := g.functions, properties := g.properties }
            else o
        else x.objects ++
          [{ name := globalsName, functions := g.functions, properties := g.properties }] := by
  intro x history
  have h : Traces x history := (traces_ofCatalog c).applyAll changes
  refine ⟨h.inStep.nodup, fun name i => ?_, h.names, h.lookup, ?_, fun g => ⟨aliases_insert _, ?_⟩⟩
  · rw [h.inStep, Option.map_eq_some_iff]
  · rw [aliases_applyAll, ofCatalog_eq, aliases_applyAll]
  · exact objects_installGlobals h.inStep g

end ScriptAtlas.SymbolIndex
