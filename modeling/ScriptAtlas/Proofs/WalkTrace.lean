/-
The walk of a script as a list of what it does, one thing after another, each
with the place in the tree where it is done. A place is a trail: which part to
take at each level on the way down from the root.

`visit_eq_run`: to walk a node is to do what its trace lists, in that order.
The trace also lists the declarations that the walk passes over (names inside
patterns, and names whose type is not known), so that one list tells what is
declared where and what the walk makes of it. Doing one of these changes
nothing.
-/
import ScriptAtlas.Diagnostic

namespace ScriptAtlas

namespace Script

/-! ## Places in a tree -/

/-- A way down a tree: which part is taken at each level. -/
abbrev Trail := List Nat

/-- The places around a place, the nearest first and the root last. -/
def Trail.around (t : Trail) : List Trail := (List.range t.length).reverse.map t.take

/-- Nodes of this kind are functions, with parameters and a body. -/
def Kind.isFunction : Kind → Bool
  | functionDeclaration | generatorDeclaration | function | generator | arrow | method => true
  | _ => false

/-- Blocks and functions have a scope of their own. -/
def Kind.hasScope (k : Kind) : Bool := k == .block || k.isFunction

namespace Node

/-- The node that a trail leads to. -/
def at? : Node → Trail → Option Node
  | n, [] => some n
  | n, i :: t =>
    match n.parts[i]? with
    | some m => m.at? t
    | none => none

/-- The trail leads to a block or a function. -/
def opensAt (root : Node) (t : Trail) : Bool := ((root.at? t).map (·.kind.hasScope)).getD false

/-- The innermost scope around a place, by the trail of its node. Around everything is the scope of
the root. -/
def scopeAround (root : Node) (t : Trail) : Trail := (t.around.find? root.opensAt).getD []

end Node

end Script

namespace Diagnostic

open Script

/-! ## What is done where -/

/-- How a name is declared. -/
inductive Form where
  /-- By a declarator that names it, with its type if that is known. -/
  | declarator (type : Option TypeInfo)
  /-- By a declarator with a pattern, with the type that a doc comment gives. -/
  | patternDeclarator (declared : Option TypeInfo)
  /-- By a parameter that names it, alone, with a default value, or for the rest. -/
  | parameter
  /-- By a parameter with a pattern. -/
  | patternParameter
  deriving DecidableEq, Repr

/-- The type that the walk binds a name to that is declared so. -/
def Form.bound? : Form → Option TypeInfo
  | declarator type => type
  | parameter => some .any
  | patternDeclarator _ | patternParameter => none

/-- What a walk does at a place. -/
inductive Event where
  | enter
  | leave
  | declare (name : String) (form : Form)
  | check (call : Node)

/-- What is done, and where. A scope is entered and left at its node, a name is declared at its
declarator or, inside a pattern or as a parameter, where it stands. -/
structure Site where
  trail : Trail
  event : Event

/-- Do what the event says. -/
def Event.run (t : Task) : Event → Walk → Walk
  | .enter, w => w.push
  | .leave, w => w.pop
  | .declare name form, w =>
    match form.bound? with
    | some type => w.bind name type
    | none => w
  | .check call, w => checkCall t call w

/-- Do one thing after another. -/
def run (t : Task) (sites : List Site) (w : Walk) : Walk :=
  sites.foldl (fun w s => s.event.run t w) w

/-! ## The trace of a walk -/

mutual

/-- The names that a pattern declares. -/
def patternSites (form : Form) (here : Trail) : Node → List Site
  | ⟨kind, _, _, _, text, parts⟩ =>
    match kind with
    | .identifier | .shorthandPattern => [⟨here, .declare text form⟩]
    | .arrayPattern | .objectPattern | .restPattern => patternSitesAll form here 0 parts
    | .pairPattern => patternSitesOf form .value here 0 parts
    | .assignmentPattern | .defaultedShorthand => patternSitesOf form .left here 0 parts
    | _ => []

/-- The names that patterns declare, the first of which is part `i` of the node at `here`. -/
def patternSitesAll (form : Form) (here : Trail) (i : Nat) : List Node → List Site
  | [] => []
  | n :: ns => patternSites form (here ++ [i]) n ++ patternSitesAll form here (i + 1) ns

/-- The names that the pattern in a role declares. -/
def patternSitesOf (form : Form) (r : Role) (here : Trail) (i : Nat) : List Node → List Site
  | [] => []
  | n :: ns =>
    if n.role = some r then patternSites form (here ++ [i]) n
    else patternSitesOf form r here (i + 1) ns

end

mutual

/-- The names that a parameter declares. -/
def parameterSites (here : Trail) : Node → List Site
  | ⟨kind, role, start, stop, text, parts⟩ =>
    match kind with
    | .identifier => [⟨here, .declare text .parameter⟩]
    | .restPattern => parameterSitesAll here 0 parts
    | _ => patternSites .patternParameter here ⟨kind, role, start, stop, text, parts⟩

/-- The names that parameters declare. -/
def parameterSitesAll (here : Trail) (i : Nat) : List Node → List Site
  | [] => []
  | n :: ns => parameterSites (here ++ [i]) n ++ parameterSitesAll here (i + 1) ns

end

/-- The names that the parameter in a role declares. -/
def parameterSitesOf (r : Role) (here : Trail) (i : Nat) : List Node → List Site
  | [] => []
  | n :: ns =>
    if n.role = some r then parameterSites (here ++ [i]) n else parameterSitesOf r here (i + 1) ns

/-- The names that a declarator declares. -/
def declaratorSites (declared : Option TypeInfo) (here : Trail) (n : Node) : List Site :=
  match n.child? .name with
  | none => []
  | some name =>
    if name.kind = .identifier then
      [⟨here, .declare name.text (.declarator (declared.orElse fun _ =>
        ((n.child? .value).bind (·.kind.literal?)).map LiteralKind.type))⟩]
    else patternSitesOf (.patternDeclarator declared) .name here 0 n.parts

mutual

/-- What is done in walking the node at `here`. -/
def trace (s : Source) (here : Trail) : Node → List Site
  | ⟨kind, role, start, stop, text, parts⟩ =>
    match kind with
    | .block => ⟨here, .enter⟩ :: traceAll s here 0 parts ++ [⟨here, .leave⟩]
    | .varDeclaration | .lexicalDeclaration =>
      traceDeclarators s
        ((Extraction.docFor s ⟨kind, role, start, stop, text, parts⟩).bind (·.declaredType)) here 0
        parts
    | .functionDeclaration | .generatorDeclaration | .function | .generator | .arrow | .method =>
      ⟨here, .enter⟩ :: (parameterSitesOf .parameter here 0 parts ++ traceParameters s here 0 parts ++
        traceRole s .body here 0 parts) ++ [⟨here, .leave⟩]
    | .call => ⟨here, .check ⟨kind, role, start, stop, text, parts⟩⟩ :: traceAll s here 0 parts
    | _ => traceAll s here 0 parts

/-- What is done in walking nodes, the first of which is part `i` of the node at `here`. -/
def traceAll (s : Source) (here : Trail) (i : Nat) : List Node → List Site
  | [] => []
  | n :: ns =>
    (if n.kind = .comment then [] else trace s (here ++ [i]) n) ++ traceAll s here (i + 1) ns

/-- What is done in walking the part in a role. -/
def traceRole (s : Source) (r : Role) (here : Trail) (i : Nat) : List Node → List Site
  | [] => []
  | n :: ns =>
    if n.role = some r then trace s (here ++ [i]) n else traceRole s r here (i + 1) ns

/-- What is done in walking declarators. -/
def traceDeclarators (s : Source) (declared : Option TypeInfo) (here : Trail) (i : Nat) :
    List Node → List Site
  | [] => []
  | ⟨kind, role, start, stop, text, parts⟩ :: ns =>
    (if kind = .declarator then
      traceRole s .value (here ++ [i]) 0 parts ++
        declaratorSites declared (here ++ [i]) ⟨kind, role, start, stop, text, parts⟩
    else []) ++ traceDeclarators s declared here (i + 1) ns

/-- What is done in walking the parameters of a function. -/
def traceParameters (s : Source) (here : Trail) (i : Nat) : List Node → List Site
  | [] => []
  | ⟨_, role, _, _, _, parts⟩ :: ns =>
    if role = some .parameters then traceParameterList s (here ++ [i]) 0 parts
    else traceParameters s here (i + 1) ns

/-- What is done in walking a list of parameters. -/
def traceParameterList (s : Source) (here : Trail) (i : Nat) : List Node → List Site
  | [] => []
  | ⟨kind, role, start, stop, text, parts⟩ :: ns =>
    (match kind with
    | .comment => []
    | .assignmentPattern =>
      traceRole s .right (here ++ [i]) 0 parts ++ parameterSitesOf .left (here ++ [i]) 0 parts
    | _ => parameterSites (here ++ [i]) ⟨kind, role, start, stop, text, parts⟩) ++
      traceParameterList s here (i + 1) ns

end

/-! ## Walking is doing what the trace lists -/

@[simp] theorem run_nil (t : Task) (w : Walk) : run t [] w = w := rfl

@[simp] theorem run_cons (t : Task) (site : Site) (sites : List Site) (w : Walk) :
    run t (site :: sites) w = run t sites (site.event.run t w) := rfl

@[simp] theorem run_append (t : Task) (first rest : List Site) (w : Walk) :
    run t (first ++ rest) w = run t rest (run t first w) := by
  simp only [run, List.foldl_append]

section

variable {t : Task} {form : Form}

mutual

/-- Declarations that bind nothing are passed over. -/
theorem run_patternSites (hf : form.bound? = none) (here : Trail) :
    ∀ (n : Node) (w : Walk), run t (patternSites form here n) w = w
  | ⟨kind, _, _, _, text, parts⟩, w => by
    simp only [patternSites]
    split
    · simp [Event.run, hf]
    · simp [Event.run, hf]
    · exact run_patternSitesAll hf here 0 parts w
    · exact run_patternSitesAll hf here 0 parts w
    · exact run_patternSitesAll hf here 0 parts w
    · exact run_patternSitesOf hf .value here 0 parts w
    · exact run_patternSitesOf hf .left here 0 parts w
    · exact run_patternSitesOf hf .left here 0 parts w
    · rfl

theorem run_patternSitesAll (hf : form.bound? = none) (here : Trail) (i : Nat) :
    ∀ (ns : List Node) (w : Walk), run t (patternSitesAll form here i ns) w = w
  | [], _ => rfl
  | n :: ns, w => by
    simp only [patternSitesAll, run_append]
    rw [run_patternSites hf, run_patternSitesAll hf]

theorem run_patternSitesOf (hf : form.bound? = none) (r : Role) (here : Trail) (i : Nat) :
    ∀ (ns : List Node) (w : Walk), run t (patternSitesOf form r here i ns) w = w
  | [], _ => rfl
  | n :: ns, w => by
    simp only [patternSitesOf]
    split
    · exact run_patternSites hf _ n w
    · exact run_patternSitesOf hf r here (i + 1) ns w

end

end

mutual

theorem bindPattern_eq_run (t : Task) (here : Trail) :
    ∀ (n : Node) (w : Walk), bindPattern n w = run t (parameterSites here n) w
  | ⟨kind, role, start, stop, text, parts⟩, w => by
    cases kind <;> simp only [bindPattern, parameterSites]
    case identifier => rfl
    case restPattern => exact bindPatterns_eq_run t here 0 parts w
    all_goals exact (run_patternSites rfl here _ w).symm

theorem bindPatterns_eq_run (t : Task) (here : Trail) (i : Nat) :
    ∀ (ns : List Node) (w : Walk), bindPatterns ns w = run t (parameterSitesAll here i ns) w
  | [], _ => rfl
  | n :: ns, w => by
    simp only [bindPatterns, parameterSitesAll, run_append]
    rw [← bindPattern_eq_run t _ n w, ← bindPatterns_eq_run t here (i + 1) ns]

end

/-- To do what the sites of the parameter in a role list is to bind that parameter, if there is
one. -/
theorem run_parameterSitesOf (t : Task) (r : Role) (here : Trail) (i : Nat) (ns : List Node)
    (w : Walk) : run t (parameterSitesOf r here i ns) w =
      ((ns.find? (·.role == some r)).map (bindPattern · w)).getD w := by
  induction ns generalizing i with
  | nil => rfl
  | cons n ns ih =>
    by_cases h : n.role = some r
    · simp only [List.find?_cons, parameterSitesOf, h, beq_self_eq_true, if_true, Option.map_some,
        Option.getD_some]
      exact (bindPattern_eq_run t (here ++ [i]) n w).symm
    · have hb : (n.role == some r) = false := by simp [h]
      simp only [List.find?_cons, hb, parameterSitesOf, h, if_false]
      exact ih (i + 1)

theorem bindDeclarator_eq_run (t : Task) (declared : Option TypeInfo) (here : Trail) (n : Node)
    (w : Walk) : bindDeclarator declared n w = run t (declaratorSites declared here n) w := by
  cases hn : n.child? .name with
  | none => simp only [bindDeclarator, declaratorSites, hn, run_nil]
  | some name =>
    by_cases hk : name.kind = .identifier
    · rw [bindDeclarator, declaratorSites]
      simp only [hn, hk, if_true]
      rfl
    · simp only [bindDeclarator, declaratorSites, hn, hk, if_false]
      exact (run_patternSitesOf rfl .name here 0 n.parts w).symm

mutual

/-- **Walking a node** is doing what its trace lists, one thing after another. -/
theorem visit_eq_run (t : Task) (here : Trail) :
    ∀ (n : Node) (w : Walk), visit t n w = run t (trace t.source here n) w
  | ⟨kind, role, start, stop, text, parts⟩, w => by
    have function : ((visitRole t .body parts
        (visitParameters t parts (visit.bindSingle parts w.push))).pop) =
        run t (⟨here, .enter⟩ :: (parameterSitesOf .parameter here 0 parts ++
          traceParameters t.source here 0 parts ++ traceRole t.source .body here 0 parts) ++
          [⟨here, .leave⟩]) w := by
      simp only [List.cons_append, run_cons, run_append, run_nil, Event.run, visit.bindSingle]
      rw [visitRole_eq_run t .body here 0, visitParameters_eq_run t here 0, run_parameterSitesOf]
      cases parts.find? (·.role == some .parameter) <;> rfl
    cases kind <;> simp only [visit, trace]
    case block =>
      simp only [List.cons_append, run_cons, run_append, run_nil, Event.run]
      rw [visitAll_eq_run t here 0]
    case varDeclaration | lexicalDeclaration => exact visitDeclarators_eq_run t _ here 0 parts w
    case functionDeclaration | generatorDeclaration | function | generator | arrow | method =>
      exact function
    case call =>
      simp only [run_cons, Event.run]
      exact visitAll_eq_run t here 0 parts _
    all_goals exact visitAll_eq_run t here 0 parts w

theorem visitAll_eq_run (t : Task) (here : Trail) (i : Nat) :
    ∀ (ns : List Node) (w : Walk), visitAll t ns w = run t (traceAll t.source here i ns) w
  | [], _ => rfl
  | n :: ns, w => by
    simp only [visitAll, traceAll, run_append]
    rw [visitAll_eq_run t here (i + 1) ns]
    split
    · rfl
    · rw [visit_eq_run t (here ++ [i]) n w]

theorem visitRole_eq_run (t : Task) (r : Role) (here : Trail) (i : Nat) :
    ∀ (ns : List Node) (w : Walk), visitRole t r ns w = run t (traceRole t.source r here i ns) w
  | [], _ => rfl
  | n :: ns, w => by
    simp only [visitRole, traceRole]
    split
    · exact visit_eq_run t (here ++ [i]) n w
    · exact visitRole_eq_run t r here (i + 1) ns w

theorem visitDeclarators_eq_run (t : Task) (declared : Option TypeInfo) (here : Trail) (i : Nat) :
    ∀ (ns : List Node) (w : Walk),
      visitDeclarators t declared ns w = run t (traceDeclarators t.source declared here i ns) w
  | [], _ => rfl
  | ⟨kind, role, start, stop, text, parts⟩ :: ns, w => by
    simp only [visitDeclarators, traceDeclarators, run_append]
    rw [visitDeclarators_eq_run t declared here (i + 1) ns]
    split
    · simp only [run_append]
      rw [← visitRole_eq_run t .value (here ++ [i]) 0 parts w,
        ← bindDeclarator_eq_run t declared (here ++ [i])]
    · rfl

theorem visitParameters_eq_run (t : Task) (here : Trail) (i : Nat) :
    ∀ (ns : List Node) (w : Walk),
      visitParameters t ns w = run t (traceParameters t.source here i ns) w
  | [], _ => rfl
  | ⟨_, role, _, _, _, parts⟩ :: ns, w => by
    simp only [visitParameters, traceParameters]
    split
    · exact visitParameterList_eq_run t (here ++ [i]) 0 parts w
    · exact visitParameters_eq_run t here (i + 1) ns w

theorem visitParameterList_eq_run (t : Task) (here : Trail) (i : Nat) :
    ∀ (ns : List Node) (w : Walk),
      visitParameterList t ns w = run t (traceParameterList t.source here i ns) w
  | [], _ => rfl
  | ⟨kind, role, start, stop, text, parts⟩ :: ns, w => by
    simp only [visitParameterList, traceParameterList, run_append]
    rw [visitParameterList_eq_run t here (i + 1) ns]
    congr 1
    cases kind
    case comment => rfl
    case assignmentPattern =>
      simp only [run_append, run_parameterSitesOf]
      rw [visitRole_eq_run t .right (here ++ [i]) 0]
      cases parts.find? (·.role == some .left) <;> rfl
    all_goals exact bindPattern_eq_run t (here ++ [i]) _ w

end

end Diagnostic

end ScriptAtlas
