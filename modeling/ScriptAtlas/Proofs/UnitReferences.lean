/-
What a graph of units answers depends on what was stated about them and on
nothing else: not on the order of the statements, and not on how often one was
made. The indices of the nodes do depend on the order, and so does the order in
which a visit finds them; the names that are answered do not.
-/
import ScriptAtlas.Proofs.StackVisit

namespace ScriptAtlas.UnitGraph

/-! ## The same statements -/

section

variable {a a' : NameGraph} {said said' : List Statement}

theorem NameGraph.Reflects.direct_congr (h : a.Reflects said) (h' : a'.Reflects said')
    (hsaid : ∀ s, s ∈ said ↔ s ∈ said') (name : String) : a.direct name = a'.direct name := by
  by_cases hn : .declare name ∈ said
  · rw [h.direct_of_declared hn, h'.direct_of_declared ((hsaid _).1 hn)]
    refine sorted_congr fun m => ?_
    simp only [List.mem_cons, h.mem_targets, h'.mem_targets, hsaid]
  · rw [h.direct_of_undeclared hn, h'.direct_of_undeclared fun hn' => hn ((hsaid _).2 hn')]

theorem NameGraph.Reflects.references_congr (h : a.Reflects said) (h' : a'.Reflects said')
    (hsaid : ∀ s, s ∈ said ↔ s ∈ said') : a.References = a'.References := by
  funext source target
  exact propext (by rw [References, References, h.mem_targets, h'.mem_targets, hsaid])

/-- The distinct values that a partial function gives for members of a list. -/
theorem toFinset_filterMap_congr {β : Type} [DecidableEq β] (f : Statement → Option β)
    (hsaid : ∀ s, s ∈ said ↔ s ∈ said') :
    (said.filterMap f).toFinset = (said'.filterMap f).toFinset := by
  ext b
  simp only [List.mem_toFinset, List.mem_filterMap, hsaid]

end

/-! ## The answers of a graph -/

/-- The graph numbers the names that were stated. -/
structure Holds (g : UnitGraph) (a : NameGraph) (said : List Statement) : Prop where
  numbers : Numbers g a
  reflects : a.Reflects said

/-- **Every graph that is built** holds what was stated. -/
theorem exists_holds (units : List (String × List String)) (more : List Statement) :
    ∃ a, Holds (more.foldl Statement.apply (ofUnits units)) a (Statement.ofUnits units ++ more) := by
  rw [ofUnits_eq, ← List.foldl_append]
  exact ⟨_, numbers_empty.stateAll _, NameGraph.reflects_empty.stateAll _⟩

section

variable {g g' : UnitGraph} {a a' : NameGraph} {said said' : List Statement}

theorem Holds.contains (h : Holds g a said) (name : String) :
    g.contains name = true ↔ .declare name ∈ said := by
  rw [UnitGraph.contains, List.contains_iff_mem, h.numbers.declared, h.reflects.declared]

theorem Holds.direct (h : Holds g a said) (name : String) : g.direct name = a.direct name := by
  rw [UnitGraph.direct, h.numbers.direct?, Option.getD_some]

theorem Holds.mem_nodes_iff (h : Holds g a said) (name : String) :
    name ∈ g.nodes ↔ ∃ s ∈ said, s.Mentions name := by
  rw [h.numbers.nodes, h.reflects.mentions_iff]

theorem Holds.mem_edges_iff (h : Holds g a said) (i j : Nat) : (i, j) ∈ g.edges ↔ ∃ source target,
    g.nodes[i]? = some source ∧ g.nodes[j]? = some target ∧ .reference source target ∈ said := by
  simp only [h.numbers.mem_edges_iff, h.reflects.references]

theorem Holds.unitCount (h : Holds g a said) :
    g.unitCount = (said.filterMap Statement.declared?).toFinset.card := by
  rw [UnitGraph.unitCount, h.numbers.declared, h.reflects.length_declared]

theorem Holds.referenceCount (h : Holds g a said) :
    g.referenceCount = (said.filterMap Statement.reference?).toFinset.card := by
  rw [UnitGraph.referenceCount, h.numbers.edges.length_eq, h.reflects.length_references]

/-- Two graphs may number the names differently and yet reach the same names. -/
theorem Holds.closure_congr (h : Holds g a said) (h' : Holds g' a' said')
    (hsaid : ∀ s, s ∈ said ↔ s ∈ said') (name : String) : g.closure name = g'.closure name := by
  refine (h.numbers.pairwise_closure name).eq_of_mem_iff (h'.numbers.pairwise_closure name) fun m => ?_
  rw [h.numbers.mem_closure_iff, h'.numbers.mem_closure_iff,
    h.reflects.references_congr h'.reflects hsaid]

end

/-- **Answers depend only on what was stated.** However units are first given and whatever is then
declared and referenced: the table of indices and the nodes agree, the nodes are the names that were
mentioned, the edges are the references, and no look-up by index fails. A unit is contained exactly
when it was declared; an undeclared one sees nothing, and a declared one itself and what it was said to
reference, each once and in order; the counts are those of the distinct names and references. The same
statements in another order, or made another number of times, give the same answers, although the
indices may be others. -/
theorem answers_depend_on_statements (units : List (String × List String))
    (more : List Statement) :
    let g := more.foldl Statement.apply (ofUnits units)
    let said := Statement.ofUnits units ++ more
    ((∀ name i, g.place? name = some i ↔ g.nodes[i]? = some name) ∧
      (∀ name, name ∈ g.nodes ↔ ∃ s ∈ said, s.Mentions name) ∧
      (∀ i j, (i, j) ∈ g.edges ↔ ∃ source target, g.nodes[i]? = some source ∧
        g.nodes[j]? = some target ∧ .reference source target ∈ said) ∧
      ∀ name, g.direct? name = some (g.direct name) ∧ g.closure? name = some (g.closure name)) ∧
    (∀ name, g.contains name = true ↔ .declare name ∈ said) ∧
    (∀ name, .declare name ∉ said → g.direct name = []) ∧
    (∀ name, .declare name ∈ said → (g.direct name).Pairwise (· < ·) ∧
      ∀ m, m ∈ g.direct name ↔ m = name ∨ .reference name m ∈ said) ∧
    g.unitCount = (said.filterMap Statement.declared?).toFinset.card ∧
    g.referenceCount = (said.filterMap Statement.reference?).toFinset.card ∧
    ∀ (units' : List (String × List String)) (more' : List Statement),
      (∀ s, s ∈ said ↔ s ∈ Statement.ofUnits units' ++ more') →
        let g' := more'.foldl Statement.apply (ofUnits units')
        (∀ name, g.contains name = g'.contains name ∧ g.direct name = g'.direct name ∧
          g.closure name = g'.closure name) ∧
        g.unitCount = g'.unitCount ∧ g.referenceCount = g'.referenceCount := by
  intro g said
  obtain ⟨a, h⟩ := exists_holds units more
  have hanswers (name : String) :
      g.direct? name = some (g.direct name) ∧ g.closure? name = some (g.closure name) :=
    ⟨(h.numbers.direct? name).trans (congrArg some (h.direct name).symm),
      h.numbers.closure?_eq_some name⟩
  refine ⟨⟨h.numbers.inStep, h.mem_nodes_iff, h.mem_edges_iff, hanswers⟩, h.contains, fun name hn => ?_,
    fun name hn => ?_, h.unitCount, h.referenceCount, fun units' more' hsaid => ?_⟩
  · rw [h.direct, h.reflects.direct_of_undeclared hn]
  · rw [h.direct, h.reflects.direct_of_declared hn]
    exact ⟨pairwise_sorted _, fun m => by rw [mem_sorted, List.mem_cons, h.reflects.mem_targets]⟩
  · obtain ⟨a', h'⟩ := exists_holds units' more'
    refine ⟨fun name => ⟨?_, ?_, h.closure_congr h' hsaid name⟩, ?_, ?_⟩
    · exact Bool.eq_iff_iff.2 (by rw [h.contains, h'.contains, hsaid])
    · rw [h.direct, h'.direct, h.reflects.direct_congr h'.reflects hsaid]
    · rw [h.unitCount, h'.unitCount, toFinset_filterMap_congr _ hsaid]
    · rw [h.referenceCount, h'.referenceCount, toFinset_filterMap_congr _ hsaid]

/-- A unit that is referenced before it is declared, another that is never declared, a cycle, and
statements that are repeated. In another order the names get other indices, and the answers stay. -/
theorem lateDeclaration_answers :
    let g := [Statement.declare "b", .reference "b" "a", .declare "a"].foldl Statement.apply
      (ofUnits [("a", ["b", "ghost", "b"])])
    let g' := ofUnits [("b", ["a"]), ("a", ["ghost", "b"])]
    (g.nodes = ["a", "b", "ghost"] ∧ g.edges = [(0, 1), (0, 2), (1, 0)]) ∧
      (g'.nodes = ["b", "a", "ghost"] ∧ g'.edges = [(0, 1), (1, 2), (1, 0)]) ∧
      g.direct "ghost" = [] ∧ (∀ m, m ∈ g.direct "a" ↔ m = "a" ∨ m = "b" ∨ m = "ghost") ∧
      g.unitCount = 2 ∧ g.referenceCount = 3 ∧ g.direct "a" = g'.direct "a" ∧
      g.closure "a" = g'.closure "a" := by
  obtain ⟨-, -, hnone, hdirect, hunits, hreferences, hsame⟩ := answers_depend_on_statements
    [("a", ["b", "ghost", "b"])] [.declare "b", .reference "b" "a", .declare "a"]
  obtain ⟨hnames, -, -⟩ := hsame [("b", ["a"]), ("a", ["ghost", "b"])] [] fun s => by
    simp only [Statement.ofUnits, List.flatMap_cons, List.flatMap_nil, List.map_cons, List.map_nil,
      List.cons_append, List.nil_append, List.append_nil, List.mem_cons, List.not_mem_nil, or_false]
    tauto
  refine ⟨by decide, by decide, hnone "ghost" (by decide), fun m => ?_, hunits, hreferences,
    (hnames "a").2.1, (hnames "a").2.2⟩
  rw [(hdirect "a" (by decide)).2]
  simp only [Statement.ofUnits, List.flatMap_cons, List.flatMap_nil, List.map_cons, List.map_nil,
    List.cons_append, List.nil_append, List.mem_cons, List.not_mem_nil, Statement.reference.injEq,
    reduceCtorEq, false_or, or_false, true_and]
  tauto

end ScriptAtlas.UnitGraph
