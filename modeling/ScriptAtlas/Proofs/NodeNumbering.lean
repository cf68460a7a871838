/-
The nodes and edges of a graph of units against the names and references they
stand for.

`InStep` says that the table of indices and the nodes are two accounts of one
numbering. `Numbers` says in addition that the nodes are the names that are known,
and that the edges are the references, one for one. Looking up a name, which may add
a node, keeps the numbers of all others (`InStep.node`); so each statement takes a
graph and the names it stands for to a graph and the names it stands for
(`Numbers.state`), and what is asked of the nodes is answered as by the names.
-/
import Mathlib.Data.List.Forall2
import Mathlib.Logic.Relation
import ScriptAtlas.Proofs.NameGraph

namespace ScriptAtlas.UnitGraph

/-! ## Names and their indices -/

/-- The table sends a name to the index of the node that has it, and to no other. -/
def InStep (g : UnitGraph) : Prop := ∀ name i, g.place? name = some i ↔ g.nodes[i]? = some name

/-- What looking up a name does: it has the index in the new graph, the nodes that were there keep
theirs, and nothing else is added. -/
structure Enters (g : UnitGraph) (name : String) (i : Nat) (g' : UnitGraph) : Prop where
  inStep : g'.InStep
  named : g'.nodes[i]? = some name
  kept : ∀ {j : Nat} {m : String}, g.nodes[j]? = some m → g'.nodes[j]? = some m
  nodes : ∀ m, m ∈ g'.nodes ↔ m ∈ g.nodes ∨ m = name
  edges : g'.edges = g.edges
  declared : g'.declared = g.declared

section

variable {g : UnitGraph} {name : String} {i j : Nat}

theorem InStep.empty : InStep {} := by
  intro name i
  simp [place?]

/-- Two nodes of one name would have one index. -/
theorem InStep.index_inj (h : g.InStep) (hi : g.nodes[i]? = some name) (hj : g.nodes[j]? = some name) :
    i = j :=
  Option.some.inj (((h name i).2 hi).symm.trans ((h name j).2 hj))

theorem InStep.place?_eq_none (h : g.InStep) : g.place? name = none ↔ name ∉ g.nodes := by
  rw [Option.eq_none_iff_forall_not_mem, List.mem_iff_getElem?, not_exists]
  exact forall_congr' fun i => not_congr (h name i)

theorem InStep.exists_place (h : g.InStep) (hn : name ∈ g.nodes) : ∃ i, g.place? name = some i := by
  obtain ⟨i, hi⟩ := List.mem_iff_getElem?.1 hn
  exact ⟨i, (h name i).2 hi⟩

/-- A name without an index gets the next one. -/
theorem InStep.append (h : g.InStep) (hnew : name ∉ g.nodes) :
    InStep { g with
      nodes := g.nodes ++ [name], places := (name, g.nodes.length) :: g.places } := by
  intro m j
  simp only [place?, List.lookup_cons, List.getElem?_append]
  by_cases hm : m = name
  · subst hm
    have hold : g.nodes[j]? ≠ some m := fun hj => hnew (List.mem_of_getElem? hj)
    simp only [beq_self_eq_true, Option.some.injEq]
    split
    · rename_i hj
      exact iff_of_false (fun he => absurd hj (by omega)) hold
    · rename_i hj
      rw [List.getElem?_singleton]
      split <;> simp <;> omega
  · have hne : (m == name) = false := beq_eq_false_iff_ne.2 hm
    rw [hne]
    refine (h m j).trans ?_
    split
    · rfl
    · rename_i hj
      rw [List.getElem?_eq_none (Nat.le_of_not_lt hj), List.getElem?_singleton]
      split <;> simp [Ne.symm hm]

/-- **Looking up a name** finds it where it is or adds it at the end. -/
theorem InStep.node (h : g.InStep) (name : String) :
    Enters g name (g.node name).1 (g.node name).2 := by
  cases hplace : g.place? name with
  | some i =>
    have hi : g.nodes[i]? = some name := (h name i).1 hplace
    simp only [UnitGraph.node, hplace]
    refine ⟨h, hi, id, fun m => ?_, rfl, rfl⟩
    exact ⟨.inl, fun hm => hm.elim id fun he => he ▸ List.mem_of_getElem? hi⟩
  | none =>
    simp only [UnitGraph.node, hplace]
    refine ⟨h.append (h.place?_eq_none.1 hplace), by simp, fun hj => ?_, by simp, rfl, rfl⟩
    exact (List.getElem?_append_left (List.getElem?_eq_some_iff.1 hj).1).trans hj

end

/-! ## Edges and references -/

/-- The edge stands for the reference: its two nodes have the two names. -/
def Stands (nodes : List String) (e : Nat × Nat) (r : String × String) : Prop :=
  nodes[e.1]? = some r.1 ∧ nodes[e.2]? = some r.2

/-- **The graph numbers the names.** The nodes are the names that are known, the edges are the
references in their order, and the same names are declared. -/
structure Numbers (g : UnitGraph) (a : NameGraph) : Prop where
  inStep : g.InStep
  nodes : ∀ name, name ∈ g.nodes ↔ name ∈ a.declared ∨ ∃ r ∈ a.references, r.1 = name ∨ r.2 = name
  edges : List.Forall₂ (Stands g.nodes) g.edges a.references
  declared : g.declared = a.declared

theorem numbers_empty : Numbers {} {} := ⟨InStep.empty, by simp, .nil, rfl⟩

/-- An edge stands for one reference, and no other edge stands for it. -/
theorem InStep.biUnique {g : UnitGraph} (h : g.InStep) : Relator.BiUnique (Stands g.nodes) := by
  constructor
  · rintro ⟨i, j⟩ ⟨a, b⟩ ⟨i', j'⟩ ⟨hi, hj⟩ ⟨hi', hj'⟩
    exact Prod.ext (h.index_inj hi hi') (h.index_inj hj hj')
  · rintro ⟨i, j⟩ ⟨a, b⟩ ⟨a', b'⟩ ⟨ha, hb⟩ ⟨ha', hb'⟩
    exact Prod.ext (Option.some.inj (ha.symm.trans ha')) (Option.some.inj (hb.symm.trans hb'))

/-- What is related one for one stays so with one more pair, or without it if it is there. -/
theorem forall₂_adjoin {α β : Type} [DecidableEq α] [DecidableEq β] {R : α → β → Prop}
    (hR : Relator.BiUnique R) {xs : List α} {ys : List β} {x : α} {y : β} (h : List.Forall₂ R xs ys)
    (hxy : R x y) : List.Forall₂ R (adjoin xs x) (adjoin ys y) := by
  have hmem : x ∈ xs ↔ y ∈ ys := List.rel_mem hR hxy h
  by_cases hx : x ∈ xs
  · rw [adjoin, adjoin, if_pos hx, if_pos (hmem.1 hx)]
    exact h
  · rw [adjoin, adjoin, if_neg hx, if_neg fun hy => hx (hmem.2 hy)]
    exact List.rel_append h (.cons hxy .nil)

section

variable {g : UnitGraph} {a : NameGraph}

theorem Numbers.declare (h : Numbers g a) (name : String) :
    Numbers (g.declare name) (a.note (.declare name)) := by
  have henter := h.inStep.node name
  refine ⟨henter.inStep, fun m => ?_, ?_, ?_⟩
  · simp only [UnitGraph.declare, NameGraph.note, henter.nodes, h.nodes, mem_adjoin]
    exact or_right_comm
  · simp only [UnitGraph.declare, NameGraph.note, henter.edges]
    exact h.edges.imp fun e r he => ⟨henter.kept he.1, henter.kept he.2⟩
  · simp only [UnitGraph.declare, NameGraph.note, henter.declared, h.declared]

theorem Numbers.addReference (h : Numbers g a) (source target : String) :
    Numbers (g.addReference source target) (a.note (.reference source target)) := by
  have hfirst := h.inStep.node source
  have hsecond := hfirst.inStep.node target
  refine ⟨hsecond.inStep, fun m => ?_, ?_, ?_⟩
  · simp only [UnitGraph.addReference, NameGraph.note, hsecond.nodes, hfirst.nodes, h.nodes,
      mem_adjoin, or_and_right, exists_or, exists_eq_left, eq_comm (a := m), or_assoc]
  · simp only [UnitGraph.addReference, NameGraph.note, hsecond.edges, hfirst.edges]
    refine forall₂_adjoin hsecond.inStep.biUnique (h.edges.imp fun e r he => ?_) ?_
    · exact ⟨hsecond.kept (hfirst.kept he.1), hsecond.kept (hfirst.kept he.2)⟩
    · exact ⟨hsecond.kept hfirst.named, hsecond.named⟩
  · simp only [UnitGraph.addReference, NameGraph.note, hsecond.declared, hfirst.declared, h.declared]

/-- **One more statement** is numbered as well. -/
theorem Numbers.state (h : Numbers g a) (s : Statement) : Numbers (s.apply g) (a.note s) := by
  cases s with
  | declare name => exact h.declare name
  | reference source target => exact h.addReference source target

/-- **All that is stated** is numbered, whatever numbers the names get on the way. -/
theorem Numbers.stateAll (h : Numbers g a) (more : List Statement) :
    Numbers (more.foldl Statement.apply g) (more.foldl NameGraph.note a) := by
  induction more generalizing g a with
  | nil => exact h
  | cons s more ih => exact ih (h.state s)

/-! ## What is next to a node -/

variable {i j : Nat} {name m : String}

theorem mem_neighbors : j ∈ g.neighbors i ↔ (i, j) ∈ g.edges := by
  simp [neighbors]

/-- An edge stands for a reference. -/
theorem Numbers.exists_reference (h : Numbers g a) {e : Nat × Nat} (he : e ∈ g.edges) :
    ∃ r ∈ a.references, Stands g.nodes e r := by
  have hedges := h.edges
  generalize g.edges = es, a.references = rs at hedges he
  induction hedges with
  | nil => cases he
  | @cons e' r es rs hstands _ ih =>
    rcases List.mem_cons.1 he with rfl | he
    · exact ⟨r, List.mem_cons_self, hstands⟩
    · obtain ⟨r', hr', hstands'⟩ := ih he
      exact ⟨r', List.mem_cons_of_mem r hr', hstands'⟩

theorem Numbers.mem_edges_iff (h : Numbers g a) : (i, j) ∈ g.edges ↔ ∃ source target,
    g.nodes[i]? = some source ∧ g.nodes[j]? = some target ∧ (source, target) ∈ a.references := by
  constructor
  · intro he
    obtain ⟨⟨source, target⟩, hr, hsource, htarget⟩ := h.exists_reference he
    exact ⟨source, target, hsource, htarget, hr⟩
  · rintro ⟨source, target, hsource, htarget, hr⟩
    exact (List.rel_mem h.inStep.biUnique ⟨hsource, htarget⟩ h.edges).2 hr

/-- An edge ends in a node. -/
theorem Numbers.exists_name (h : Numbers g a) (hj : j ∈ g.neighbors i) :
    ∃ m, g.nodes[j]? = some m := by
  obtain ⟨r, -, hstands⟩ := h.exists_reference (mem_neighbors.1 hj)
  exact ⟨r.2, hstands.2⟩

/-- A node is next to another exactly when its name is referenced by the other's. -/
theorem Numbers.mem_neighbors_iff (h : Numbers g a) (hi : g.nodes[i]? = some name)
    (hj : g.nodes[j]? = some m) : j ∈ g.neighbors i ↔ m ∈ a.targets name := by
  rw [mem_neighbors, NameGraph.mem_targets]
  exact List.rel_mem h.inStep.biUnique ⟨hi, hj⟩ h.edges

/-- What is referenced has a node. -/
theorem Numbers.exists_index (h : Numbers g a) (hm : m ∈ a.targets name) :
    ∃ j : Nat, g.nodes[j]? = some m := by
  refine List.mem_iff_getElem?.1 ((h.nodes m).2 (.inr ⟨(name, m), ?_, .inr rfl⟩))
  exact NameGraph.mem_targets.1 hm

/-- Nodes of the graph have names, and no look-up fails. -/
theorem exists_names {is : List Nat} (h : ∀ i ∈ is, ∃ m, g.nodes[i]? = some m) :
    ∃ names, g.names? is = some names ∧ ∀ m, m ∈ names ↔ ∃ i ∈ is, g.nodes[i]? = some m := by
  induction is with
  | nil => exact ⟨[], rfl, by simp⟩
  | cons i is ih =>
    obtain ⟨name, hname⟩ := h i List.mem_cons_self
    obtain ⟨names, hnames, hmem⟩ := ih fun j hj => h j (List.mem_cons_of_mem i hj)
    refine ⟨name :: names, ?_, fun m => ?_⟩
    · rw [names?] at hnames ⊢
      rw [List.mapM_cons, hname, hnames]
      rfl
    · simp only [List.mem_cons, hmem, exists_eq_or_imp, hname, Option.some.injEq, eq_comm (a := m)]

/-- **What is visible** is found by way of the indices as it is by way of the names. -/
theorem Numbers.direct? (h : Numbers g a) (name : String) : g.direct? name = some (a.direct name) := by
  by_cases hname : name ∈ a.declared
  · have hcontains : g.contains name = true := by simp [contains, h.declared, hname]
    obtain ⟨i, hplace⟩ := h.inStep.exists_place ((h.nodes name).2 (.inl hname))
    have hi : g.nodes[i]? = some name := (h.inStep name i).1 hplace
    obtain ⟨names, hnames, hmem⟩ := exists_names fun j hj => h.exists_name (i := i) hj
    have hsame : sorted (name :: names) = sorted (name :: a.targets name) := by
      refine sorted_congr fun m => ?_
      rw [List.mem_cons, List.mem_cons, hmem]
      refine or_congr_right ⟨?_, fun hm => ?_⟩
      · rintro ⟨j, hj, hjm⟩
        exact (h.mem_neighbors_iff hi hjm).1 hj
      · obtain ⟨j, hj⟩ := h.exists_index hm
        exact ⟨j, (h.mem_neighbors_iff hi hj).2 hm, hj⟩
    rw [UnitGraph.direct?, if_pos hcontains, hplace, NameGraph.direct, if_pos hname, ← hsame]
    simp [hnames]
  · have hcontains : ¬ g.contains name = true := by simp [contains, h.declared, hname]
    rw [UnitGraph.direct?, if_neg hcontains, NameGraph.direct, if_neg hname]

/-! ## What is reached from a node -/

/-- The second node is next to the first. -/
def Next (g : UnitGraph) (i j : Nat) : Prop := j ∈ g.neighbors i

/-- The first unit references the second. -/
def NameGraph.References (a : NameGraph) (source target : String) : Prop := target ∈ a.targets source

/-- **A way over edges** from a node leads to a node, and over references to its name. -/
theorem Numbers.exists_name_of_way (h : Numbers g a) (hi : g.nodes[i]? = some name)
    (hway : Relation.ReflTransGen g.Next i j) :
    ∃ m, g.nodes[j]? = some m ∧ Relation.ReflTransGen a.References name m := by
  induction hway with
  | refl => exact ⟨name, hi, .refl⟩
  | @tail k j _ hlast ih =>
    obtain ⟨x, hk, hway⟩ := ih
    obtain ⟨m, hj⟩ := h.exists_name hlast
    exact ⟨m, hj, hway.tail ((h.mem_neighbors_iff hk hj).1 hlast)⟩

/-- **A way over references** is a way over edges. -/
theorem Numbers.exists_index_of_way (h : Numbers g a) (hi : g.nodes[i]? = some name)
    (hway : Relation.ReflTransGen a.References name m) :
    ∃ j : Nat, g.nodes[j]? = some m ∧ Relation.ReflTransGen g.Next i j := by
  induction hway with
  | refl => exact ⟨i, hi, .refl⟩
  | @tail x m _ hlast ih =>
    obtain ⟨k, hk, hway⟩ := ih
    obtain ⟨j, hj⟩ := h.exists_index hlast
    exact ⟨j, hj, hway.tail ((h.mem_neighbors_iff hk hj).2 hlast)⟩

end

end ScriptAtlas.UnitGraph
