/-
The graph of units without its numbering: the declared names and the stated
references, as names. It is what the nodes and edges of a graph stand for.

`Reflects` relates it to the statements made so far. One more statement keeps it
(`Reflects.state`), so all do (`Reflects.stateAll`), and every answer is then said
in terms of the statements.
-/
import Mathlib.Data.Finset.Card
import Mathlib.Data.List.Sort
import Mathlib.Data.String.Basic
import ScriptAtlas.Proofs.SortedLists
import ScriptAtlas.UnitGraph

namespace ScriptAtlas

namespace UnitGraph

/-! ## Names in order -/

section

variable {names names' : List String}

@[simp] theorem mem_sorted {name : String} : name ∈ sorted names ↔ name ∈ names := by
  simp [sorted]

/-- Sorted names are distinct and ascend. -/
theorem pairwise_sorted (names : List String) : (sorted names).Pairwise (· < ·) :=
  Ordered.pairwise_sort (nodup_eraseDups names)

/-- Sorted names are told by which names they are. -/
theorem sorted_congr (h : ∀ name, name ∈ names ↔ name ∈ names') : sorted names = sorted names' :=
  (pairwise_sorted names).eq_of_mem_iff (pairwise_sorted names') fun name => by simpa using h name

end

/-! ## Statements -/

/-- What can be stated about units. -/
inductive Statement where
  | declare (name : String)
  | reference (source target : String)
  deriving DecidableEq, Repr

namespace Statement

/-- The graph after the statement. -/
def apply (g : UnitGraph) : Statement → UnitGraph
  | declare name => g.declare name
  | reference source target => g.addReference source target

/-- The unit that the statement declares. -/
def declared? : Statement → Option String
  | declare name => some name
  | reference .. => none

/-- The reference that the statement makes. -/
def reference? : Statement → Option (String × String)
  | declare _ => none
  | reference source target => some (source, target)

/-- The statement is about the unit. -/
def Mentions (name : String) : Statement → Prop
  | declare n => n = name
  | reference source target => source = name ∨ target = name

/-- What units with their references state: each unit, and then the references it has. -/
def ofUnits (units : List (String × List String)) : List Statement :=
  units.flatMap fun (name, references) => declare name :: references.map (reference name)

end Statement

/-- The graph of units is the graph of what they state. -/
theorem ofUnits_eq (units : List (String × List String)) :
    ofUnits units = (Statement.ofUnits units).foldl Statement.apply {} := by
  have step (g : UnitGraph) (unit : String × List String) :
      unit.2.foldl (fun g r => g.addReference unit.1 r) (g.declare unit.1) =
        (.declare unit.1 :: unit.2.map (.reference unit.1)).foldl Statement.apply g := by
    rw [List.foldl_cons, List.foldl_map]
    rfl
  simp only [ofUnits, Statement.ofUnits, List.foldl_flatMap, step]

section

variable {α : Type} [DecidableEq α] {xs : List α} {a b : α}

theorem mem_adjoin : b ∈ adjoin xs a ↔ b ∈ xs ∨ b = a := by
  unfold adjoin
  split
  · rename_i ha
    exact ⟨.inl, fun h => h.elim id fun he => he ▸ ha⟩
  · simp

theorem nodup_adjoin (h : xs.Nodup) : (adjoin xs a).Nodup := by
  unfold adjoin
  split
  · exact h
  · rename_i ha
    exact List.nodup_append.2 ⟨h, List.nodup_singleton a, by rintro x hx y hy rfl; simp_all⟩

end

/-! ## Names and references -/

/-- Declared names and references, each in the order in which it was first stated. -/
structure NameGraph where
  declared : List String := []
  references : List (String × String) := []

namespace NameGraph

/-- What is known after the statement. -/
def note (a : NameGraph) : Statement → NameGraph
  | .declare name => { a with declared := adjoin a.declared name }
  | .reference source target => { a with references := adjoin a.references (source, target) }

/-- The units that a unit references. -/
def targets (a : NameGraph) (name : String) : List String :=
  (a.references.filter (·.1 == name)).map (·.2)

/-- The units visible from a unit. -/
def direct (a : NameGraph) (name : String) : List String :=
  if name ∈ a.declared then sorted (name :: a.targets name) else []

theorem mem_targets {a : NameGraph} {source target : String} :
    target ∈ a.targets source ↔ (source, target) ∈ a.references := by
  simp [targets]

/-- What was stated is known, each thing once, and nothing else is. -/
structure Reflects (a : NameGraph) (said : List Statement) : Prop where
  declared : ∀ name, name ∈ a.declared ↔ .declare name ∈ said
  references : ∀ source target, (source, target) ∈ a.references ↔ .reference source target ∈ said
  nodup_declared : a.declared.Nodup
  nodup_references : a.references.Nodup

theorem reflects_empty : Reflects {} [] := ⟨by simp, by simp, List.nodup_nil, List.nodup_nil⟩

section

variable {a : NameGraph} {said : List Statement}

/-- **One more statement** is known as well. -/
theorem Reflects.state (h : Reflects a said) (s : Statement) : Reflects (a.note s) (said ++ [s]) := by
  cases s with
  | declare name =>
    refine ⟨fun n => ?_, fun m n => ?_, nodup_adjoin h.nodup_declared, h.nodup_references⟩
    · simp [note, mem_adjoin, h.declared]
    · simp [note, h.references]
  | reference source target =>
    refine ⟨fun n => ?_, fun m n => ?_, h.nodup_declared, nodup_adjoin h.nodup_references⟩
    · simp [note, h.declared]
    · simp [note, mem_adjoin, h.references]

/-- **All that is stated** is known. -/
theorem Reflects.stateAll (h : Reflects a said) (more : List Statement) :
    Reflects (more.foldl note a) (said ++ more) := by
  induction more generalizing a said with
  | nil => simpa using h
  | cons s more ih =>
    rw [List.append_cons]
    exact ih (h.state s)

theorem Reflects.mem_targets (h : Reflects a said) (source target : String) :
    target ∈ a.targets source ↔ .reference source target ∈ said := by
  rw [NameGraph.mem_targets, h.references]

/-- The known names are those that the statements are about. -/
theorem Reflects.mentions_iff (h : Reflects a said) (name : String) :
    (name ∈ a.declared ∨ ∃ r ∈ a.references, r.1 = name ∨ r.2 = name) ↔
      ∃ s ∈ said, s.Mentions name := by
  constructor
  · rintro (hn | ⟨⟨source, target⟩, hr, hname⟩)
    · exact ⟨_, (h.declared name).1 hn, rfl⟩
    · exact ⟨_, (h.references source target).1 hr, hname⟩
  · rintro ⟨s, hs, hname⟩
    cases s with
    | declare n => exact .inl ((h.declared name).2 (hname ▸ hs))
    | reference source target => exact .inr ⟨_, (h.references source target).2 hs, hname⟩

theorem Reflects.direct_of_undeclared (h : Reflects a said) {name : String}
    (hn : .declare name ∉ said) : a.direct name = [] := by
  rw [direct, if_neg fun hd => hn ((h.declared name).1 hd)]

theorem Reflects.direct_of_declared (h : Reflects a said) {name : String}
    (hn : .declare name ∈ said) : a.direct name = sorted (name :: a.targets name) := by
  rw [direct, if_pos ((h.declared name).2 hn)]

theorem Reflects.length_declared (h : Reflects a said) :
    a.declared.length = (said.filterMap Statement.declared?).toFinset.card := by
  rw [← List.toFinset_card_of_nodup h.nodup_declared]
  congr 1
  ext name
  simp only [List.mem_toFinset, h.declared, List.mem_filterMap]
  constructor
  · exact fun hn => ⟨_, hn, rfl⟩
  · rintro ⟨s, hs, hname⟩
    cases s with
    | declare n => exact Option.some.inj hname ▸ hs
    | reference a b => cases hname

theorem Reflects.length_references (h : Reflects a said) :
    a.references.length = (said.filterMap Statement.reference?).toFinset.card := by
  rw [← List.toFinset_card_of_nodup h.nodup_references]
  congr 1
  ext ⟨source, target⟩
  simp only [List.mem_toFinset, h.references, List.mem_filterMap]
  constructor
  · exact fun hr => ⟨_, hr, rfl⟩
  · rintro ⟨s, hs, hpair⟩
    cases s with
    | declare n => cases hpair
    | reference a b =>
      obtain ⟨rfl, rfl⟩ := Prod.mk.inj (Option.some.inj hpair)
      exact hs

end

end NameGraph

end UnitGraph

end ScriptAtlas
