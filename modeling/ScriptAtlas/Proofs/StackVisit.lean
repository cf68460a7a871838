/-
What can be reached from a unit, found by a visit of the nodes: a stack of nodes to
look at, and the nodes found so far. A node taken from the stack is passed over if it
was found before; otherwise it is found, and what is next to it is put on the stack.

A step keeps that everything found or waiting is reached from the start, and that
what is next to a found node is found or waiting (`Visit.Sound`). So when nothing
waits any more, what was found is what can be reached. It comes to that on every
graph, whatever cycles it has: each step makes the stack smaller or uses up the
edges of a node, and every edge is used once (`Visit.stack_or_work_steps`). The names
of the nodes that are found are then the names that references lead to
(`Numbers.closure?_spec`).
-/
import Mathlib.Logic.Function.Iterate
import ScriptAtlas.Proofs.NodeNumbering

namespace ScriptAtlas.UnitGraph

namespace Visit

/-! ## One step -/

/-- What a step does. -/
inductive Step (g : UnitGraph) : Visit → Visit → Prop
  | done {found : List Nat} : Step g ⟨[], found⟩ ⟨[], found⟩
  | passed {i : Nat} {rest found : List Nat} (h : i ∈ found) : Step g ⟨i :: rest, found⟩ ⟨rest, found⟩
  | entered {i : Nat} {rest found : List Nat} (h : i ∉ found) :
    Step g ⟨i :: rest, found⟩ ⟨push g.neighbors i rest found, i :: found⟩

theorem step_spec (g : UnitGraph) (v : Visit) : Step g v (v.step g.neighbors) := by
  obtain ⟨stack, found⟩ := v
  cases stack with
  | nil => exact .done
  | cons i rest =>
    by_cases h : i ∈ found
    · rw [step, if_pos h]
      exact .passed h
    · rw [step, if_neg h]
      exact .entered h

/-- The node is found or waits to be looked at. -/
def Covers (v : Visit) (i : Nat) : Prop := i ∈ v.found ∨ i ∈ v.stack

section

variable {g : UnitGraph} {start i j : Nat} {v w : Visit}

/-- What is found or waits is not forgotten. -/
theorem Step.covers (hstep : Step g v w) (h : v.Covers j) : w.Covers j := by
  cases hstep with
  | done => exact h
  | passed hfound =>
    rcases h with h | h
    · exact .inl h
    · rcases List.mem_cons.1 h with rfl | h
      · exact .inl hfound
      · exact .inr h
  | entered hnew =>
    rcases h with h | h
    · exact .inl (List.mem_cons_of_mem _ h)
    · rcases List.mem_cons.1 h with rfl | h
      · exact .inl List.mem_cons_self
      · exact .inr (List.mem_append_right _ h)

/-- What is added is next to something that waited. -/
theorem Step.covers_or_next (hstep : Step g v w) (h : w.Covers j) :
    v.Covers j ∨ ∃ i, v.Covers i ∧ g.Next i j := by
  cases hstep with
  | done => exact .inl h
  | passed _ => exact .inl (h.imp_right (List.mem_cons_of_mem _))
  | @entered i rest found _ =>
    rcases h with h | h
    · rcases List.mem_cons.1 h with rfl | h
      · exact .inl (.inr List.mem_cons_self)
      · exact .inl (.inl h)
    · rcases List.mem_append.1 h with h | h
      · refine .inr ⟨i, .inr List.mem_cons_self, ?_⟩
        exact List.mem_of_mem_filter (List.mem_reverse.1 h)
      · exact .inl (.inr (List.mem_cons_of_mem _ h))

/-- Where a node is found, everything next to it is found or waits. -/
theorem Step.found_or_covers_next (hstep : Step g v w) (h : i ∈ w.found) :
    i ∈ v.found ∨ ∀ j, g.Next i j → w.Covers j := by
  cases hstep with
  | done => exact .inl h
  | passed _ => exact .inl h
  | @entered k rest found _ =>
    rcases List.mem_cons.1 h with rfl | h
    · refine .inr fun j hj => ?_
      by_cases hfound : j ∈ i :: found
      · exact .inl hfound
      · refine .inr (List.mem_append_left _ (List.mem_reverse.2 ?_))
        exact List.mem_filter.2 ⟨hj, decide_eq_true hfound⟩
    · exact .inl h

theorem Step.stack_eq_nil (hstep : Step g v w) (h : v.stack = []) : w.stack = [] := by
  cases hstep with
  | done => rfl
  | passed _ => cases h
  | entered _ => cases h

theorem Step.nodup_found (hstep : Step g v w) (h : v.found.Nodup) : w.found.Nodup := by
  cases hstep with
  | done => exact h
  | passed _ => exact h
  | entered hnew => exact List.nodup_cons.2 ⟨hnew, h⟩

/-! ## A whole visit -/

/-- What holds of a visit from `start` at every moment. -/
structure Sound (g : UnitGraph) (start : Nat) (v : Visit) : Prop where
  started : v.Covers start
  reached : ∀ j, v.Covers j → Relation.ReflTransGen g.Next start j
  closed : ∀ i ∈ v.found, ∀ j, g.Next i j → v.Covers j
  nodup : v.found.Nodup

theorem sound_start (g : UnitGraph) (start : Nat) : Sound g start { stack := [start] } where
  started := .inr List.mem_cons_self
  reached := by
    rintro j (hj | hj)
    · cases hj
    · rw [List.mem_singleton.1 hj]
  closed := List.forall_mem_nil _
  nodup := List.nodup_nil

/-- **One step** keeps it. -/
theorem Sound.step (h : Sound g start v) (hstep : Step g v w) : Sound g start w where
  started := hstep.covers h.started
  reached j hj := by
    rcases hstep.covers_or_next hj with hj | ⟨i, hi, hj⟩
    · exact h.reached j hj
    · exact (h.reached i hi).tail hj
  closed i hi := by
    rcases hstep.found_or_covers_next hi with hi | hi
    · exact fun j hj => hstep.covers (h.closed i hi j hj)
    · exact hi
  nodup := hstep.nodup_found h.nodup

/-- **Any number of steps** keeps it. -/
theorem Sound.steps (h : Sound g start v) (n : Nat) :
    Sound g start ((Visit.step g.neighbors)^[n] v) := by
  induction n with
  | zero => exact h
  | succ n ih =>
    rw [Function.iterate_succ_apply']
    exact ih.step (step_spec g _)

/-- When nothing waits, what was found is what can be reached. -/
theorem Sound.mem_found_iff (h : Sound g start v) (hdone : v.stack = []) :
    j ∈ v.found ↔ Relation.ReflTransGen g.Next start j := by
  have hfound {j : Nat} : v.Covers j ↔ j ∈ v.found := by simp [Covers, hdone]
  constructor
  · exact fun hj => h.reached j (.inl hj)
  · intro hway
    induction hway with
    | refl => exact hfound.1 h.started
    | tail _ hlast ih => exact hfound.1 (h.closed _ ih _ hlast)

/-! ## The end of a visit -/

/-- A visit that has not ended yet has done a part of its work in each step. -/
theorem stack_or_work_steps (g : UnitGraph) (v : Visit) (n : Nat) :
    ((step g.neighbors)^[n] v).stack = [] ∨ work g ((step g.neighbors)^[n] v) + n ≤ work g v := by
  induction n with
  | zero => exact .inr (Nat.le_refl _)
  | succ n ih =>
    rw [Function.iterate_succ_apply']
    by_cases hdone : ((step g.neighbors)^[n] v).stack = []
    · exact .inl ((step_spec g _).stack_eq_nil hdone)
    · have hlt := work_step_lt (g := g) hdone
      have hle := ih.resolve_left hdone
      exact .inr (by omega)

/-- **Every visit ends.** -/
theorem stack_steps {n : Nat} (h : work g v ≤ n) : ((step g.neighbors)^[n] v).stack = [] := by
  rcases stack_or_work_steps g v n with hdone | hle
  · exact hdone
  · have hnone : work g ((step g.neighbors)^[n] v) = 0 := by omega
    exact List.length_eq_zero_iff.1 (Nat.add_eq_zero_iff.1 hnone).1

/-- The visit once nothing waits is the visit after any number of steps that is enough. -/
theorem run_eq_steps {n : Nat} (h : ((step g.neighbors)^[n] v).stack = []) :
    run g v = (step g.neighbors)^[n] v := by
  induction n generalizing v with
  | zero =>
    rw [Function.iterate_zero_apply] at h ⊢
    rw [run, dif_pos h]
  | succ n ih =>
    rw [Function.iterate_succ_apply] at h ⊢
    by_cases hdone : v.stack = []
    · obtain ⟨stack, found⟩ := v
      obtain rfl : stack = [] := hdone
      rw [← ih h, step]
    · rw [run, dif_neg hdone, ih h]

end

end Visit

/-! ## The closure of a unit -/

/-- The visit from a node after a number of steps. -/
def visit (g : UnitGraph) (start steps : Nat) : Visit :=
  (Visit.step g.neighbors)^[steps] { stack := [start] }

section

variable {g : UnitGraph} {a : NameGraph} {start steps : Nat} {name : String}

theorem work_start_le (g : UnitGraph) (start : Nat) :
    Visit.work g { stack := [start] } ≤ g.referenceCount + 1 := by
  have hle := List.length_filter_le (·.1 ∉ ([] : List Nat)) g.edges
  simp only [Visit.work, List.length_singleton, referenceCount]
  omega

theorem stack_visit (h : g.referenceCount < steps) : (visit g start steps).stack = [] :=
  Visit.stack_steps (le_trans (work_start_le g start) h)

theorem reach_eq_visit (h : (visit g start steps).stack = []) :
    g.reach start = (visit g start steps).found.reverse := by
  rw [reach, Visit.run_eq_steps h]
  rfl

/-- **What a visit finds** is what edges lead to. -/
theorem mem_visit_iff (h : (visit g start steps).stack = []) (j : Nat) :
    j ∈ (visit g start steps).found ↔ Relation.ReflTransGen g.Next start j :=
  ((Visit.sound_start g start).steps steps).mem_found_iff h

theorem mem_reach_iff (g : UnitGraph) (start j : Nat) :
    j ∈ g.reach start ↔ Relation.ReflTransGen g.Next start j := by
  have hdone : (visit g start (g.referenceCount + 1)).stack = [] := stack_visit (Nat.lt_succ_self _)
  rw [reach_eq_visit hdone, List.mem_reverse, mem_visit_iff hdone]

/-- From a name that is not known nothing is reached. -/
theorem Numbers.closure?_of_unknown (h : Numbers g a) (hname : name ∉ g.nodes) :
    g.closure? name = some [] := by
  rw [closure?, h.inStep.place?_eq_none.2 hname]

/-- **What is reached from a name**: no look-up fails, and the answer is, in order and each name once,
every other name to which references lead. -/
theorem Numbers.closure?_spec (h : Numbers g a) (name : String) :
    ∃ reached, g.closure? name = some reached ∧ reached.Pairwise (· < ·) ∧
      ∀ m, m ∈ reached ↔ m ≠ name ∧ Relation.TransGen a.References name m := by
  by_cases hname : name ∈ g.nodes
  · obtain ⟨start, hplace⟩ := h.inStep.exists_place hname
    have hstart : g.nodes[start]? = some name := (h.inStep name start).1 hplace
    obtain ⟨names, hnames, hmem⟩ : ∃ names,
        g.names? ((g.reach start).filter (· != start)) = some names ∧ ∀ m, m ∈ names ↔
          ∃ j ∈ (g.reach start).filter (· != start), g.nodes[j]? = some m := by
      refine exists_names fun j hj => ?_
      have hway := (mem_reach_iff g start j).1 (List.mem_of_mem_filter hj)
      obtain ⟨m, hm, -⟩ := h.exists_name_of_way hstart hway
      exact ⟨m, hm⟩
    have hclosure : g.closure? name = some (sorted names) := by
      simp only [closure?, hplace, hnames, Option.map_some]
    refine ⟨sorted names, hclosure, pairwise_sorted names, fun m => ?_⟩
    simp only [mem_sorted, hmem, List.mem_filter, mem_reach_iff, bne_iff_ne]
    constructor
    · rintro ⟨j, ⟨hway, hne⟩, hj⟩
      obtain ⟨m', hm', hway⟩ := h.exists_name_of_way hstart hway
      obtain rfl : m' = m := Option.some.inj (hm'.symm.trans hj)
      have hmne : m' ≠ name := fun he => hne (h.inStep.index_inj hj (he ▸ hstart))
      exact ⟨hmne, (Relation.reflTransGen_iff_eq_or_transGen.1 hway).resolve_left hmne⟩
    · rintro ⟨hmne, hway⟩
      obtain ⟨j, hj, hway⟩ := h.exists_index_of_way hstart hway.to_reflTransGen
      refine ⟨j, ⟨hway, fun he => hmne ?_⟩, hj⟩
      rw [he] at hj
      exact Option.some.inj (hj.symm.trans hstart)
  · refine ⟨[], h.closure?_of_unknown hname, .nil, fun m => ?_⟩
    refine iff_of_false List.not_mem_nil fun hreached => hname ?_
    obtain ⟨next, hfirst, -⟩ := Relation.TransGen.head'_iff.1 hreached.2
    exact (h.nodes name).2 (.inr ⟨_, NameGraph.mem_targets.1 hfirst, .inl rfl⟩)

theorem Numbers.closure?_eq_some (h : Numbers g a) (name : String) :
    g.closure? name = some (g.closure name) := by
  obtain ⟨reached, hreached, -⟩ := h.closure?_spec name
  rw [closure, hreached]
  rfl

theorem Numbers.pairwise_closure (h : Numbers g a) (name : String) :
    (g.closure name).Pairwise (· < ·) := by
  obtain ⟨reached, hreached, hsorted, -⟩ := h.closure?_spec name
  rw [closure, hreached]
  exact hsorted

theorem Numbers.mem_closure_iff (h : Numbers g a) (name m : String) :
    m ∈ g.closure name ↔ m ≠ name ∧ Relation.TransGen a.References name m := by
  obtain ⟨reached, hreached, -, hmem⟩ := h.closure?_spec name
  rw [closure, hreached]
  exact hmem m

/-- What is visible over one reference is reached. -/
theorem Numbers.eq_or_mem_closure_of_mem_direct (h : Numbers g a) {m : String}
    (hm : m ∈ g.direct name) : m = name ∨ m ∈ g.closure name := by
  by_cases hsame : m = name
  · exact .inl hsame
  · refine .inr ((h.mem_closure_iff name m).2 ⟨hsame, .single ?_⟩)
    rw [direct, h.direct?, Option.getD_some, NameGraph.direct] at hm
    split at hm
    · exact (List.mem_cons.1 (mem_sorted.1 hm)).resolve_left hsame
    · cases hm

end

/-- **The closure of a unit is what can be reached from it.** Whatever was declared and referenced,
with cycles, references to itself and names that are never declared: a name has an index exactly when
it was mentioned, and it is the name of the node there. The visit from that node ends after at most
one step more than there are references, it finds each node once, and the names of the nodes it finds,
the start apart, are the closure. This is, in order and each name once, every other name to which one
or more references lead. It is empty for a name that was never mentioned, and what is visible from a
unit is the unit or in its closure. No look-up by index fails on the way. -/
theorem closure_is_what_is_reached (said : List Statement) (name : String) :
    let g := said.foldl Statement.apply {}
    (∀ m i, g.place? m = some i ↔ g.nodes[i]? = some m) ∧
    (g.place? name = none ↔ ∀ s ∈ said, ¬ s.Mentions name) ∧
    (∀ start, g.place? name = some start → ∀ steps, g.referenceCount < steps →
      (visit g start steps).stack = [] ∧ (visit g start steps).found.Nodup ∧
      (g.names? ((visit g start steps).found.reverse.filter (· != start))).map sorted =
        some (g.closure name)) ∧
    g.closure? name = some (g.closure name) ∧
    (g.closure name).Pairwise (· < ·) ∧
    (∀ m, m ∈ g.closure name ↔
      m ≠ name ∧ Relation.TransGen (fun a b => .reference a b ∈ said) name m) ∧
    ((∀ s ∈ said, ¬ s.Mentions name) → g.closure name = []) ∧
    ∀ m ∈ g.direct name, m = name ∨ m ∈ g.closure name := by
  intro g
  have h : Numbers g (said.foldl NameGraph.note {}) := numbers_empty.stateAll said
  have hsaid : NameGraph.Reflects (said.foldl NameGraph.note {}) said :=
    NameGraph.reflects_empty.stateAll said
  have hreferences : (said.foldl NameGraph.note {}).References = fun a b => .reference a b ∈ said :=
    funext₂ fun a b => propext (hsaid.mem_targets a b)
  have hunknown : g.place? name = none ↔ ∀ s ∈ said, ¬ s.Mentions name := by
    rw [h.inStep.place?_eq_none, h.nodes, hsaid.mentions_iff]
    push Not
    rfl
  refine ⟨h.inStep, hunknown, fun start hstart steps hsteps => ?_, h.closure?_eq_some name,
    h.pairwise_closure name, fun m => ?_, fun hname => ?_,
    fun m hm => h.eq_or_mem_closure_of_mem_direct hm⟩
  · have hdone : (visit g start steps).stack = [] := stack_visit hsteps
    refine ⟨hdone, ((Visit.sound_start g start).steps steps).nodup, ?_⟩
    rw [← h.closure?_eq_some, ← reach_eq_visit hdone]
    simp only [closure?, hstart]
  · rw [h.mem_closure_iff, hreferences]
  · rw [closure, closure?, hunknown.2 hname]
    rfl

/-- A unit that references itself, a cycle through a name that is never declared, and a unit that
leads into the cycle and is not reached. -/
def cyclicStatements : List Statement :=
  [.declare "a", .reference "a" "a", .reference "a" "b", .reference "b" "ghost",
    .reference "ghost" "a", .reference "outside" "a"]

theorem cyclicStatements_closure :
    let g := cyclicStatements.foldl Statement.apply {}
    g.nodes = ["a", "b", "ghost", "outside"] ∧ g.place? "a" = some 0 ∧ g.referenceCount < 6 ∧
      (visit g 0 6).found = [2, 1, 0] ∧ g.closure "a" = ["b", "ghost"] ∧
      Relation.TransGen (fun a b => .reference a b ∈ cyclicStatements) "a" "ghost" ∧
      g.place? "missing" = none ∧ g.closure "missing" = [] ∧ ("b" = "a" ∨ "b" ∈ g.closure "a") := by
  intro g
  obtain ⟨-, -, hvisit, -, -, hreached, -, hdirect⟩ := closure_is_what_is_reached cyclicStatements "a"
  obtain ⟨-, hmissing, -, -, -, -, hnone, -⟩ := closure_is_what_is_reached cyclicStatements "missing"
  have hunsaid : ∀ s ∈ cyclicStatements, ¬ s.Mentions "missing" := by
    simp [cyclicStatements, Statement.Mentions]
  have hfound : (visit g 0 6).found = [2, 1, 0] := by decide
  have hnames : (g.names? ([2, 1, 0].reverse.filter (· != 0))).map sorted = some ["b", "ghost"] := by
    decide +kernel
  have hclosure : g.closure "a" = ["b", "ghost"] := by
    have hanswer := (hvisit 0 (by decide) 6 (by decide)).2.2
    rw [hfound] at hanswer
    exact Option.some.inj (hanswer.symm.trans hnames)
  refine ⟨by decide, by decide, by decide, hfound, hclosure, ((hreached "ghost").1 ?_).2,
    hmissing.2 hunsaid, hnone hunsaid, hdirect "b" (by decide +kernel)⟩
  show "ghost" ∈ g.closure "a"
  rw [hclosure]
  decide

end ScriptAtlas.UnitGraph
