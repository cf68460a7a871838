/-
Which unit references which. A unit sees itself and the units it names, not
those that they name in turn; what can be reached over several references is
a question of its own. A name that is only referenced is not declared.

Names are the nodes of the graph. A name gets the next index when it is first
mentioned and keeps it, references are edges between indices, and questions
about names are answered by way of their indices.
-/
import ScriptAtlas.Ordered

namespace ScriptAtlas

/-- A graph of units. -/
structure UnitGraph where
  /-- The names of the nodes, by their indices. -/
  nodes : List String := []
  /-- The index of each name. -/
  places : List (String × Nat) := []
  /-- The references, each from one index to another, in the order in which they were first stated. -/
  edges : List (Nat × Nat) := []
  /-- The declared names. -/
  declared : List String := []
  deriving DecidableEq, Repr, Inhabited

namespace UnitGraph

/-! ## Building -/

/-- The list with one more member at its end, unless it is one already. -/
def adjoin {α : Type} [DecidableEq α] (xs : List α) (a : α) : List α :=
  if a ∈ xs then xs else xs ++ [a]

/-- The index of that name. -/
def place? (g : UnitGraph) (name : String) : Option Nat := g.places.lookup name

/-- The index of a name, and the graph in which it has it. A name without an index gets a new node. -/
def node (g : UnitGraph) (name : String) : Nat × UnitGraph :=
  match g.place? name with
  | some i => (i, g)
  | none =>
    (g.nodes.length,
      { g with nodes := g.nodes ++ [name], places := (name, g.nodes.length) :: g.places })

/-- State that the unit exists. -/
def declare (g : UnitGraph) (name : String) : UnitGraph :=
  let (_, g) := g.node name
  { g with declared := adjoin g.declared name }

/-- State that the first unit references the second. -/
def addReference (g : UnitGraph) (source target : String) : UnitGraph :=
  let (i, g) := g.node source
  let (j, g) := g.node target
  { g with edges := adjoin g.edges (i, j) }

/-- The graph of units with their references. -/
def ofUnits (units : List (String × List String)) : UnitGraph :=
  units.foldl
    (fun g (name, references) => references.foldl (fun g r => g.addReference name r) (g.declare name))
    {}

/-! ## What is visible -/

/-- The unit is declared. -/
def contains (g : UnitGraph) (name : String) : Bool := g.declared.contains name

/-- The nodes to which edges lead from a node, the edge that was added last first. -/
def neighbors (g : UnitGraph) (i : Nat) : List Nat :=
  (g.edges.filter (·.1 == i)).reverse.map (·.2)

/-- The names of nodes, if each is a node of the graph. -/
def names? (g : UnitGraph) (is : List Nat) : Option (List String) := is.mapM (g.nodes[·]?)

/-- The distinct names of a list in the order of their code points. -/
def sorted (names : List String) : List String := Ordered.sort names.eraseDups

/-- The units visible from a unit: itself and what it references. An undeclared one sees nothing.
There is no answer if a declared name has no index or an edge leads to no node. -/
def direct? (g : UnitGraph) (name : String) : Option (List String) :=
  if g.contains name then do
    let i ← g.place? name
    let names ← g.names? (g.neighbors i)
    return sorted (name :: names)
  else some []

/-- The units visible from a unit. -/
def direct (g : UnitGraph) (name : String) : List String := (g.direct? name).getD []

/-! ## What can be reached -/

/-- A visit of nodes under way. -/
structure Visit where
  /-- The nodes to look at, the next one first. -/
  stack : List Nat
  /-- The nodes found so far, the last one first. -/
  found : List Nat := []
  deriving DecidableEq, Repr

namespace Visit

/-- The nodes on the stack once `i` is found: what is next to it is put there one after another, as
far as it was not found before. -/
def push (next : Nat → List Nat) (i : Nat) (rest found : List Nat) : List Nat :=
  ((next i).filter (· ∉ i :: found)).reverse ++ rest

/-- The next node is taken from the stack and found, unless it was found before. -/
def step (next : Nat → List Nat) : Visit → Visit
  | ⟨[], found⟩ => ⟨[], found⟩
  | ⟨i :: rest, found⟩ =>
    if i ∈ found then ⟨rest, found⟩ else ⟨push next i rest found, i :: found⟩

/-- The steps that are left at most: one for each waiting node, and one for each edge from a node
that was not found yet. -/
def work (g : UnitGraph) (v : Visit) : Nat :=
  v.stack.length + (g.edges.filter (·.1 ∉ v.found)).length

/-- The edges from a new node are used up when it is found. -/
theorem length_filter_enter {i : Nat} {found : List Nat} (hnew : i ∉ found) (edges : List (Nat × Nat)) :
    (edges.filter (·.1 == i)).length + (edges.filter (·.1 ∉ i :: found)).length =
      (edges.filter (·.1 ∉ found)).length := by
  induction edges with
  | nil => rfl
  | cons e edges ih =>
    by_cases he : e.1 = i <;> by_cases hfound : e.1 ∈ found <;> simp_all <;> omega

/-- A step does a part of the work, as long as something waits. -/
theorem work_step_lt {g : UnitGraph} {v : Visit} (hv : v.stack ≠ []) :
    work g (v.step g.neighbors) < work g v := by
  obtain ⟨stack, found⟩ := v
  cases stack with
  | nil => exact absurd rfl hv
  | cons i rest =>
    by_cases hfound : i ∈ found
    · simp only [step, if_pos hfound, work, List.length_cons]
      omega
    · have hused := length_filter_enter hfound g.edges
      have hpushed := List.length_filter_le (· ∉ i :: found) (g.neighbors i)
      have hneighbors : (g.neighbors i).length = (g.edges.filter (·.1 == i)).length := by
        simp [neighbors]
      simp only [step, if_neg hfound, work, push, List.length_append, List.length_reverse,
        List.length_cons]
      omega

/-- The visit once nothing waits any more. -/
def run (g : UnitGraph) (v : Visit) : Visit :=
  if _h : v.stack = [] then v else run g (v.step g.neighbors)
termination_by work g v
decreasing_by exact work_step_lt _h

end Visit

/-- The nodes that a visit from a node finds, in the order in which it does. -/
def reach (g : UnitGraph) (start : Nat) : List Nat :=
  (Visit.run g { stack := [start] }).found.reverse

/-- Every unit that can be reached from a unit over one or more references, itself apart. From a name
without an index nothing is reached. There is no answer if an edge leads to no node. -/
def closure? (g : UnitGraph) (name : String) : Option (List String) :=
  match g.place? name with
  | none => some []
  | some start => (g.names? ((g.reach start).filter (· != start))).map sorted

/-- Every unit that can be reached from a unit, itself apart. -/
def closure (g : UnitGraph) (name : String) : List String := (g.closure? name).getD []

/-! ## Counts -/

/-- The number of declared units. -/
def unitCount (g : UnitGraph) : Nat := g.declared.length

/-- The number of references. -/
def referenceCount (g : UnitGraph) : Nat := g.edges.length

end UnitGraph

end ScriptAtlas
