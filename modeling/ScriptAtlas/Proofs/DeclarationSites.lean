/-
Where the declarations of a script stand. Each function or generator that is
declared at the top level is extracted once, as a class if some statement of its
body assigns to a member of `this` and as a function otherwise, and each declarator
of a name at the top level is extracted once, as a variable. All are listed from
the top of the script down, with the places where they start.

`Declares` and `DeclaresVariable` say what is extracted in terms of the syntax tree;
that a statement assigns to a member of `this` is `Assigns`. The laws of trees say
that no declaration lacks its name, so that none is lost on the way, and that none
is empty, so that two never start at one place.
-/
import Mathlib.Data.List.Forall2
import Mathlib.Data.Option.Basic
import ScriptAtlas.Proofs.ExtractedArity
import ScriptAtlas.Proofs.StatementForms

namespace ScriptAtlas

open Script

/-! ## Lists picked from lists -/

section

variable {α β : Type} {R : α → β → Prop} {f : α → Option β} {as : List α}

/-- The second list has, in order, one entry for each entry of the first one that has any. -/
inductive Picked (R : α → β → Prop) : List α → List β → Prop where
  | nil : Picked R [] []
  | take {a b as bs} : R a b → Picked R as bs → Picked R (a :: as) (b :: bs)
  | skip {a as bs} : (∀ b, ¬ R a b) → Picked R as bs → Picked R (a :: as) bs

theorem picked_filterMap (hsome : ∀ a ∈ as, ∀ b, f a = some b → R a b)
    (hnone : ∀ a ∈ as, f a = none → ∀ b, ¬ R a b) : Picked R as (as.filterMap f) := by
  induction as with
  | nil => exact .nil
  | cons a as ih =>
    have rest : Picked R as (as.filterMap f) :=
      ih (fun x hx => hsome x (.tail _ hx)) fun x hx => hnone x (.tail _ hx)
    cases hf : f a with
    | none =>
      rw [List.filterMap_cons_none hf]
      exact .skip (hnone a (.head _) hf) rest
    | some b =>
      rw [List.filterMap_cons_some hf]
      exact .take (hsome a (.head _) b hf) rest

theorem flatMap_filter_of {p : α → Bool} {g : α → List β} (h : ∀ a ∈ as, p a = false → g a = []) :
    (as.filter p).flatMap g = as.flatMap g := by
  induction as with
  | nil => rfl
  | cons a as ih =>
    have rest := ih fun x hx => h x (.tail _ hx)
    cases hp : p a with
    | true => simp [hp, rest]
    | false => simp [hp, rest, h a (.head _) hp]

end

/-- The location is on an earlier line, or further left on the same one. -/
def Location.Before (a b : Location) : Prop := a.line < b.line ∨ a.line = b.line ∧ a.column < b.column

namespace Extraction

/-! ## What a script declares -/

/-- The functions and generators that are declared at the top level. -/
def functionNodes (s : Source) : List Node :=
  s.root.parts.filter fun n => n.kind = .functionDeclaration ∨ n.kind = .generatorDeclaration

/-- The declarators of a name, not of a pattern, in the declarations at the top level. -/
def variableNodes (s : Source) : List Node :=
  (s.root.parts.filter fun n => n.kind = .varDeclaration ∨ n.kind = .lexicalDeclaration).flatMap
    fun n => n.parts.filter fun m =>
      m.kind = .declarator ∧ (m.child? .name).map (·.kind) = some .identifier

/-- The statement is nothing but an assignment of that value to that member of `this`. In `this?.name`
the name is a member, too. -/
structure Assigns (st : Node) (a : SelfAssignment) : Prop where
  statement : a.statement = st
  kind : st.kind = .expressionStatement
  assignment : ∃ e left object property, st.parts.filter (!·.kind.isGap) = [e] ∧
    e.kind = .assignment ∧ e.child? .left = some left ∧ e.child? .right = some a.value ∧
    left.kind = .member ∧ left.child? .object = some object ∧ object.kind = .thisWord ∧
    left.child? .property = some property ∧ property.kind = .propertyName ∧ property.text = a.member

/-- A function is assigned to the member, and the method says so. -/
structure IsMethod (file : String) (a : SelfAssignment) (m : Function) : Prop where
  value : a.value.kind.isFunctionValue = true
  name : m.name = a.member
  location : m.location = some (locationOf file a.statement)

/-- A literal is assigned to the member, and the variable says so. -/
structure IsField (file : String) (a : SelfAssignment) (v : Variable) : Prop where
  value : a.value.kind.literal?.isSome = true
  name : v.name = a.member
  location : v.location = some (locationOf file a.statement)

/-- The node has that name, which is an identifier. -/
def IsNamed (n : Node) (name : String) : Prop :=
  ∃ m, n.child? .name = some m ∧ m.kind = .identifier ∧ m.text = name

/-- What the declaration of a function is extracted as: a function if no statement of its body assigns
to a member of `this`, and otherwise a class with what the assignments give to it. -/
def Declares (file : String) (n : Node) : Function ⊕ Class → Prop
  | .inl f => IsNamed n f.name ∧ f.location = some (locationOf file n) ∧
    ∃ body, n.child? .body = some body ∧ ∀ st ∈ body.parts, ∀ a, ¬ Assigns st a
  | .inr c => IsNamed n c.name ∧ c.location = some (locationOf file n) ∧
    ∃ body assigned, n.child? .body = some body ∧ Picked Assigns body.parts assigned ∧ assigned ≠ [] ∧
      Picked (IsMethod file) assigned c.methods ∧ Picked (IsField file) assigned c.vars

/-- What a declarator is extracted as. -/
def DeclaresVariable (file : String) (n : Node) (v : Variable) : Prop :=
  IsNamed n v.name ∧ v.location = some (locationOf file n)

variable {s : Source} {text file : String} {n m st : Node} {a : SelfAssignment}

/-! ## Assignments to members of `this` -/

/-- In a tree of a script the first part of an expression statement is all that is in it. -/
theorem parts_of_isOneExpression {e : Node} (h : st.IsOneExpression) :
    st.parts.head? = some e ↔ st.parts.filter (!·.kind.isGap) = [e] := by
  obtain ⟨e', rest, hparts, he, hrest⟩ := h
  have hfilter : st.parts.filter (!·.kind.isGap) = [e'] := by
    rw [hparts, List.filter_cons_of_pos (by simp [he]), List.filter_eq_nil_iff.2]
    intro m hm
    simp [hrest m hm]
  rw [hfilter, hparts]
  simp

theorem selfAssignment?_eq_some_iff (hst : st.kind = .expressionStatement → st.IsOneExpression) :
    selfAssignment? st = some a ↔ Assigns st a := by
  simp only [selfAssignment?, Option.bind_eq_bind, Option.bind_eq_some_iff, Option.guard_eq_some',
    Bool.and_eq_true, decide_eq_true_eq]
  constructor
  · rintro ⟨-, hk, e, he, -, hassignment, left, hleft, value, hvalue, -, hmember, object, hobject,
      property, hproperty, -, ⟨hthis, hname⟩, ha⟩
    obtain rfl := Option.some.inj ha
    exact ⟨rfl, hk, e, left, object, property, (parts_of_isOneExpression (hst hk)).1 he, hassignment,
      hleft, hvalue, hmember, hobject, hthis, hproperty, hname, rfl⟩
  · rintro ⟨rfl, hk, e, left, object, property, he, hassignment, hleft, hvalue, hmember, hobject, hthis,
      hproperty, hname, htext⟩
    refine ⟨(), hk, e, (parts_of_isOneExpression (hst hk)).2 he, (), hassignment, left, hleft, a.value,
      hvalue, (), hmember, object, hobject, property, hproperty, (), ⟨hthis, hname⟩, ?_⟩
    rw [htext]
    rfl

/-- The assignments in a body are those of its statements that assign. -/
theorem picked_selfAssignments {body : Node}
    (hst : ∀ st ∈ body.parts, st.kind = .expressionStatement → st.IsOneExpression) :
    Picked Assigns body.parts (body.parts.filterMap selfAssignment?) := by
  refine picked_filterMap (fun st hmem a ha => (selfAssignment?_eq_some_iff (hst st hmem)).1 ha) ?_
  intro st hmem hnone a ha
  rw [(selfAssignment?_eq_some_iff (hst st hmem)).2 ha] at hnone
  cases hnone

theorem named_filterMap_selfAssignment? (body : Node) :
    body.named.filterMap selfAssignment? = body.parts.filterMap selfAssignment? := by
  rw [Node.named, List.filterMap_filter]
  refine List.filterMap_congr fun st _ => ?_
  by_cases hk : st.kind = .comment
  · have hnone : selfAssignment? st = none := by
      rw [selfAssignment?, hk]
      rfl
    simp [hk, hnone]
  · simp [hk]

theorem picked_methods (s : Source) (file : String) (assigned : List SelfAssignment) :
    Picked (IsMethod file) assigned (assigned.filterMap (method? s file)) := by
  refine picked_filterMap (fun a _ m hm => ?_) fun a _ hnone m hm => ?_
  · obtain ⟨hvalue, he⟩ := Option.ite_none_right_eq_some.1 hm
    obtain rfl := Option.some.inj he
    exact ⟨hvalue, rfl, rfl⟩
  · simp [method?, hm.value] at hnone

theorem picked_fields (s : Source) (file : String) (assigned : List SelfAssignment) :
    Picked (IsField file) assigned (assigned.filterMap (field? s file)) := by
  refine picked_filterMap (fun a _ v hv => ?_) fun a _ hnone v hv => ?_
  · obtain ⟨hvalue, he⟩ := Option.ite_none_right_eq_some.1 hv
    obtain rfl := Option.some.inj he
    exact ⟨hvalue, rfl, rfl⟩
  · simp [field?, hv.value] at hnone

/-! ## Functions and classes -/

/-- The text of the name of a node. -/
def nameOf (n : Node) : String := ((n.child? .name).map (·.text)).getD ""

/-- The function or class that the declaration of a function is. -/
def entryOf (s : Source) (file : String) (n : Node) : Function ⊕ Class :=
  match selfAssignments n with
  | [] => .inl (functionOf file (nameOf n) (docFor s n) (codeParams n) n)
  | assigned => .inr (classOf s file (nameOf n) n assigned)

/-- One entry as declarations. -/
def declarationsOf : Function ⊕ Class → Declarations
  | .inl f => { functions := [f] }
  | .inr c => { classes := [c] }

theorem ofFunction_eq {name : Node} (hname : n.child? .name = some name) :
    ofFunction s file n = declarationsOf (entryOf s file n) := by
  unfold ofFunction entryOf nameOf
  rw [hname]
  cases selfAssignments n <;> rfl

theorem mem_functionNodes : n ∈ functionNodes s ↔ n ∈ s.root.parts ∧
    (n.kind = .functionDeclaration ∨ n.kind = .generatorDeclaration) := by
  simp [functionNodes]

/-- A function at the top level has a name and a body. -/
theorem children_of_function (h : Source.parse? text = some s) (hn : n ∈ functionNodes s) :
    IsNamed n (nameOf n) ∧ ∃ body, n.child? .body = some body ∧
      ∀ st ∈ body.parts, st.kind = .expressionStatement → st.IsOneExpression := by
  obtain ⟨hmem, hk⟩ := mem_functionNodes.1 hn
  obtain ⟨i, hi⟩ := List.mem_iff_getElem?.1 hmem
  have hroles := roles_of_declaration (Node.lawful_part (wellFormed_of_parse? h).lawful hi) hk
  obtain ⟨hidentifier, hbody⟩ := declaration_parts h hmem hk
  have child {r : Role} (hr : r ∈ [Role.name, .parameters, .body]) :
      ∃ m, n.child? r = some m ∧ m ∈ n.parts ∧ m.role = some r := by
    rw [← hroles, ← child?_isSome_iff] at hr
    obtain ⟨m, hm⟩ := Option.isSome_iff_exists.1 hr
    exact ⟨m, hm, mem_of_child? hm⟩
  obtain ⟨name, hname, hnameMem, hnameRole⟩ := child (r := .name) (by decide)
  obtain ⟨body, hbodyChild, hbodyMem, hbodyRole⟩ := child (r := .body) (by decide)
  refine ⟨⟨name, hname, hidentifier name hnameMem hnameRole, ?_⟩, body, hbodyChild,
    hbody body hbodyMem hbodyRole⟩
  simp [nameOf, hname]

theorem declares_entryOf (h : Source.parse? text = some s) (hn : n ∈ functionNodes s) :
    Declares file n (entryOf s file n) := by
  obtain ⟨hname, body, hbody, hst⟩ := children_of_function h hn
  have hpicked := picked_selfAssignments hst
  have hassigned : selfAssignments n = body.parts.filterMap selfAssignment? := by
    simp [selfAssignments, hbody, named_filterMap_selfAssignment?]
  rw [← hassigned] at hpicked
  unfold entryOf
  split
  case h_1 hnil =>
    refine ⟨hname, rfl, body, hbody, fun st hmem a ha => ?_⟩
    rw [hassigned, List.filterMap_eq_nil_iff] at hnil
    rw [← selfAssignment?_eq_some_iff (hst st hmem), hnil st hmem] at ha
    cases ha
  case h_2 hne =>
    exact ⟨hname, rfl, body, _, hbody, hpicked, hne, picked_methods s file _, picked_fields s file _⟩

/-! ## What is extracted, list by list -/

theorem foldl_append (ds : List Declarations) (d : Declarations) : ds.foldl Declarations.append d =
    ⟨d.functions ++ ds.flatMap (·.functions), d.vars ++ ds.flatMap (·.vars),
      d.classes ++ ds.flatMap (·.classes)⟩ := by
  induction ds generalizing d with
  | nil => simp
  | cons e ds ih => rw [List.foldl_cons, ih]; simp [Declarations.append]

theorem ofSource_eq (s : Source) (file : String) : Declarations.ofSource s file =
    ⟨s.root.parts.flatMap fun n => (ofStatement s file n).functions,
      s.root.parts.flatMap fun n => (ofStatement s file n).vars,
      s.root.parts.flatMap fun n => (ofStatement s file n).classes⟩ := by
  have hcomment : ∀ n ∈ s.root.parts, (n.kind != .comment) = false → ofStatement s file n = {} := by
    intro n _ hk
    have hk : n.kind = .comment := by simpa using hk
    simp [ofStatement, hk]
  rw [Declarations.ofSource, foldl_append]
  simp only [List.flatMap_map, List.nil_append, Node.named]
  rw [flatMap_filter_of fun n hn hk => by rw [hcomment n hn hk],
    flatMap_filter_of fun n hn hk => by rw [hcomment n hn hk],
    flatMap_filter_of fun n hn hk => by rw [hcomment n hn hk]]

/-- The entries of the functions at the top level, of one kind of entries. -/
theorem flatMap_ofStatement {β : Type} (h : Source.parse? text = some s)
    {list : Declarations → List β} {pick? : Function ⊕ Class → Option β}
    (hlist : ∀ e, list (declarationsOf e) = (pick? e).toList) (hvars : ∀ vs, list { vars := vs } = []) :
    (s.root.parts.flatMap fun n => list (ofStatement s file n)) =
      ((functionNodes s).map (entryOf s file)).filterMap pick? := by
  have hother : ∀ n ∈ s.root.parts, decide (n.kind = .functionDeclaration ∨
      n.kind = .generatorDeclaration) = false → list (ofStatement s file n) = [] := by
    intro n _ hk
    unfold ofStatement
    split
    · simp_all
    · simp_all
    · exact hvars _
    · exact hvars _
    · exact hvars []
  rw [← flatMap_filter_of hother, List.filterMap_map, List.filterMap_eq_flatMap_toList]
  refine List.flatMap_congr fun n hn => ?_
  obtain ⟨⟨name, hname, -⟩, -⟩ := children_of_function h hn
  have hstatement : ofStatement s file n = ofFunction s file n := by
    rcases (mem_functionNodes.1 hn).2 with hk | hk <;> simp [ofStatement, hk]
  rw [hstatement, ofFunction_eq hname, hlist]
  rfl

theorem functions_ofSource (h : Source.parse? text = some s) (file : String) :
    (Declarations.ofSource s file).functions =
      ((functionNodes s).map (entryOf s file)).filterMap Sum.getLeft? := by
  rw [ofSource_eq]
  exact flatMap_ofStatement h (by rintro (_ | _) <;> rfl) fun _ => rfl

theorem classes_ofSource (h : Source.parse? text = some s) (file : String) :
    (Declarations.ofSource s file).classes =
      ((functionNodes s).map (entryOf s file)).filterMap Sum.getRight? := by
  rw [ofSource_eq]
  exact flatMap_ofStatement h (by rintro (_ | _) <;> rfl) fun _ => rfl

/-! ## Variables -/

theorem mem_variableNodes : n ∈ variableNodes s ↔ ∃ d ∈ s.root.parts,
    (d.kind = .varDeclaration ∨ d.kind = .lexicalDeclaration) ∧ n ∈ d.parts ∧ n.kind = .declarator ∧
    (n.child? .name).map (·.kind) = some .identifier := by
  simp [variableNodes, and_assoc]

theorem isNamed_of_identifier (h : (n.child? .name).map (·.kind) = some .identifier) :
    IsNamed n (nameOf n) := by
  obtain ⟨m, hm, hk⟩ := Option.map_eq_some_iff.1 h
  exact ⟨m, hm, hk, by simp [nameOf, hm]⟩

/-- The variable that a declarator of a name is. -/
def variableEntry (s : Source) (file : String) (n : Node) : Variable :=
  variableOf file (nameOf n) (docFor s n) n

theorem ofDeclarator?_eq_ite (s : Source) (file : String) (n : Node) : ofDeclarator? s file n =
    if n.kind = .declarator ∧ (n.child? .name).map (·.kind) = some .identifier then
      some (variableEntry s file n) else none := by
  unfold ofDeclarator? variableEntry nameOf
  by_cases hk : n.kind = .declarator
  · cases hname : n.child? .name with
    | none => simp [hk]
    | some name =>
      by_cases hid : name.kind = .identifier
      · simp [hk, hid]
      · simp [hk, hid]
  · rw [if_neg fun h => hk h.1, show guard (n.kind = .declarator) = (none : Option Unit) from if_neg hk]
    rfl

theorem declares_variableEntry (hn : n ∈ variableNodes s) :
    DeclaresVariable file n (variableEntry s file n) := by
  obtain ⟨-, -, -, -, -, hid⟩ := mem_variableNodes.1 hn
  exact ⟨isNamed_of_identifier hid, rfl⟩

theorem named_filterMap_ofDeclarator? (s : Source) (file : String) (d : Node) :
    d.named.filterMap (ofDeclarator? s file) =
      (d.parts.filter fun m => m.kind = .declarator ∧
        (m.child? .name).map (·.kind) = some .identifier).map (variableEntry s file) := by
  rw [← List.filterMap_eq_map, Node.named, List.filterMap_filter, List.filterMap_filter]
  refine List.filterMap_congr fun m _ => ?_
  rw [ofDeclarator?_eq_ite]
  by_cases hk : m.kind = .comment <;> simp [hk]

theorem vars_ofSource (s : Source) (file : String) :
    (Declarations.ofSource s file).vars = (variableNodes s).map (variableEntry s file) := by
  have hother : ∀ n ∈ s.root.parts, decide (n.kind = .varDeclaration ∨
      n.kind = .lexicalDeclaration) = false → (ofStatement s file n).vars = [] := by
    intro n _ hk
    have hfunction : (ofFunction s file n).vars = [] := by
      unfold ofFunction
      split
      · rfl
      · split <;> rfl
    unfold ofStatement
    split
    · exact hfunction
    · exact hfunction
    · simp_all
    · simp_all
    · rfl
  rw [ofSource_eq, variableNodes, List.map_flatMap, ← flatMap_filter_of hother]
  refine List.flatMap_congr fun d hd => ?_
  rw [← named_filterMap_ofDeclarator?]
  rcases of_decide_eq_true (List.mem_filter.1 hd).2 with hk | hk <;> simp [ofStatement, hk]

/-! ## The order of the declarations -/

/-- The parts of a script obey the laws of trees. -/
theorem lawful_part_root (hs : s.WellFormed) (hn : n ∈ s.root.parts) : n.Lawful ∧ n.Laid := by
  obtain ⟨i, hi⟩ := List.mem_iff_getElem?.1 hn
  exact ⟨Node.lawful_part hs.lawful hi, (Node.bounds_of_part hs.laid.parts hi).2.1⟩

/-- What has a name is not empty. -/
theorem IsNamed.start_lt_stop {name : String} (h : IsNamed n name) (hl : n.Lawful) (hlaid : n.Laid) :
    n.start.byte < n.stop.byte := by
  obtain ⟨m, hm, hk, -⟩ := h
  obtain ⟨i, hi⟩ := List.mem_iff_getElem?.1 (mem_of_child? hm).1
  have hm := Node.start_lt_stop (Node.lawful_part hl hi) (by rw [hk]; rfl)
  obtain ⟨hstart, -, hstop⟩ := Node.bounds_of_part hlaid.parts hi
  omega

theorem pairwise_functionNodes (h : Source.parse? text = some s) :
    (functionNodes s).Pairwise fun m n => m.start.Before n.start := by
  refine List.Pairwise.imp_of_mem (fun {m n} hm hn hle => ?_)
    ((wellFormed_of_parse? h).laid.parts.pairwise.filter _)
  have hmem := (mem_functionNodes.1 hm).1
  obtain ⟨hl, hlaid⟩ := lawful_part_root (wellFormed_of_parse? h) hmem
  have hlt := (children_of_function h hm).1.start_lt_stop hl hlaid
  exact Spot.before_of_byte_lt (start_in_text h (Node.mem_ofKind_part hmem))
    (start_in_text h (Node.mem_ofKind_part (mem_functionNodes.1 hn).1)) (by omega)

/-- A declarator of a name stands inside its declaration and is not empty. -/
theorem bounds_of_declarator {d : Node} (h : Source.parse? text = some s) (hd : d ∈ s.root.parts)
    (hn : n ∈ d.parts) (hid : (n.child? .name).map (·.kind) = some .identifier) :
    n.start.In text.toList ∧ d.start.byte ≤ n.start.byte ∧ n.start.byte < n.stop.byte ∧
      n.stop.byte ≤ d.stop.byte := by
  obtain ⟨hl, hlaid⟩ := lawful_part_root (wellFormed_of_parse? h) hd
  obtain ⟨i, hi⟩ := List.mem_iff_getElem?.1 hn
  obtain ⟨hstart, hnlaid, hstop⟩ := Node.bounds_of_part hlaid.parts hi
  have hlt := (isNamed_of_identifier hid).start_lt_stop (Node.lawful_part hl hi) hnlaid
  exact ⟨start_in_text h (Node.mem_ofKind_part_part hd hn), hstart, hlt, hstop⟩

theorem pairwise_variableNodes (h : Source.parse? text = some s) :
    (variableNodes s).Pairwise fun m n => m.start.Before n.start := by
  have bounds {d n : Node} (hd : d ∈ s.root.parts) (hn : n ∈ d.parts.filter fun m =>
      m.kind = .declarator ∧ (m.child? .name).map (·.kind) = some .identifier) :=
    bounds_of_declarator h hd (List.mem_filter.1 hn).1 (of_decide_eq_true (List.mem_filter.1 hn).2).2
  refine List.pairwise_flatMap.2 ⟨fun d hd => ?_, ?_⟩
  · -- Within one declaration the declarators follow one another.
    have hd := (List.mem_filter.1 hd).1
    refine List.Pairwise.imp_of_mem (fun {m n} hm hn hle => ?_)
      ((lawful_part_root (wellFormed_of_parse? h) hd).2.parts.pairwise.filter _)
    obtain ⟨hmIn, -, hlt, -⟩ := bounds hd hm
    exact Spot.before_of_byte_lt hmIn (bounds hd hn).1 (by omega)
  · -- Of two declarations the first ends before the second starts.
    refine List.Pairwise.imp_of_mem (fun {d e} hd he hle m hm n hn => ?_)
      ((wellFormed_of_parse? h).laid.parts.pairwise.filter _)
    obtain ⟨hmIn, -, hlt, hstop⟩ := bounds (List.mem_filter.1 hd).1 hm
    obtain ⟨hnIn, hstart, -, -⟩ := bounds (List.mem_filter.1 he).1 hn
    exact Spot.before_of_byte_lt hmIn hnIn (by omega)

theorem start_in_text_of_mem (h : Source.parse? text = some s)
    (hn : n ∈ functionNodes s ++ variableNodes s) : n.start.In text.toList := by
  rcases List.mem_append.1 hn with hn | hn
  · exact start_in_text h (Node.mem_ofKind_part (mem_functionNodes.1 hn).1)
  · obtain ⟨d, hd, -, hmem, -, hid⟩ := mem_variableNodes.1 hn
    exact (bounds_of_declarator h hd hmem hid).1

/-! ## Locations -/

/-- All the locations are known, and each comes before the next ones. -/
def InOrder (locations : List (Option Location)) : Prop :=
  locations.Pairwise fun a b => ∃ x y, a = some x ∧ b = some y ∧ x.Before y

/-- In a text of less than 4 GiB, lines and columns are recorded as they are. -/
theorem toNat_locationOf (file : String) (hn : n.start.In text.toList)
    (hsize : text.utf8ByteSize < 2 ^ 32) : (locationOf file n).line.toNat = n.start.line ∧
      (locationOf file n).column.toNat = n.start.column := by
  obtain ⟨hline, hcolumn⟩ := hn.le_size
  rw [String.utf8Len_toList] at hline hcolumn
  exact ⟨Nat.mod_eq_of_lt (by omega), Nat.mod_eq_of_lt (by omega)⟩

theorem before_locationOf (hm : m.start.In text.toList) (hn : n.start.In text.toList)
    (hsize : text.utf8ByteSize < 2 ^ 32) (h : m.start.Before n.start) :
    (locationOf file m).Before (locationOf file n) := by
  obtain ⟨hmline, hmcolumn⟩ := toNat_locationOf file hm hsize
  obtain ⟨hnline, hncolumn⟩ := toNat_locationOf file hn hsize
  unfold Location.Before
  rw [UInt32.lt_iff_toNat_lt, UInt32.lt_iff_toNat_lt, ← UInt32.toNat_inj, hmline, hnline, hmcolumn,
    hncolumn]
  exact h

/-- Entries that record where nodes start are in order if the nodes are. -/
theorem inOrder_filterMap {β : Type} (file : String) {nodes : List Node} {entry : Node → Option β}
    {location : β → Option Location} (hin : ∀ n ∈ nodes, n.start.In text.toList)
    (hsize : text.utf8ByteSize < 2 ^ 32) (hnodes : nodes.Pairwise fun m n => m.start.Before n.start)
    (hentry : ∀ n ∈ nodes, ∀ b, entry n = some b → location b = some (locationOf file n)) :
    InOrder ((nodes.filterMap entry).map location) := by
  refine List.pairwise_map.2 (List.pairwise_filterMap.2 ?_)
  refine List.Pairwise.imp_of_mem (fun {m n} hm hn hbefore b hb c hc => ?_) hnodes
  exact ⟨_, _, hentry m hm b hb, hentry n hn c hc,
    before_locationOf (hin m hm) (hin n hn) hsize hbefore⟩

/-- **Each declaration at the top level is extracted once and where it starts.** One entry comes from
each function or generator that is declared, and it is a class if a statement of its body assigns to
a member of `this`; one variable comes from each declarator of a name. The methods and the variables
of a class come from those of its assignments that give functions and literals. The declarations start
at places that come one after another, so in a text of less than 4 GiB, where places are not cut off
to 32 bits, the locations in each of the three lists do. -/
theorem declarations_extracted_once (text file : String) (s : Source)
    (h : Source.parse? text = some s) :
    let d := Declarations.ofSource s file
    (∃ entries, List.Forall₂ (Declares file) (functionNodes s) entries ∧
      d.functions = entries.filterMap Sum.getLeft? ∧ d.classes = entries.filterMap Sum.getRight?) ∧
    List.Forall₂ (DeclaresVariable file) (variableNodes s) d.vars ∧
    (functionNodes s).Pairwise (fun m n => m.start.Before n.start) ∧
    (variableNodes s).Pairwise (fun m n => m.start.Before n.start) ∧
    (text.utf8ByteSize < 2 ^ 32 →
      (∀ n ∈ functionNodes s ++ variableNodes s, (locationOf file n).line.toNat = n.start.line ∧
        (locationOf file n).column.toNat = n.start.column) ∧
      InOrder (d.functions.map (·.location)) ∧ InOrder (d.classes.map (·.location)) ∧
      InOrder (d.vars.map (·.location))) := by
  intro d
  have hfunctions := functions_ofSource h file
  have hclasses := classes_ofSource h file
  have hvars := vars_ofSource s file
  have hin : ∀ n ∈ functionNodes s ++ variableNodes s, n.start.In text.toList :=
    fun n hn => start_in_text_of_mem h hn
  obtain ⟨hinFunctions, hinVariables⟩ := List.forall_mem_append.1 hin
  refine ⟨⟨_, ?_, hfunctions, hclasses⟩, ?_, pairwise_functionNodes h, pairwise_variableNodes h,
    fun hsize => ⟨fun n hn => toNat_locationOf file (hin n hn) hsize, ?_, ?_, ?_⟩⟩
  · exact List.forall₂_map_right_iff.2 (List.forall₂_same.2 fun n hn => declares_entryOf h hn)
  · rw [hvars]
    exact List.forall₂_map_right_iff.2 (List.forall₂_same.2 fun n hn => declares_variableEntry hn)
  · rw [hfunctions, List.filterMap_map]
    refine inOrder_filterMap file hinFunctions hsize (pairwise_functionNodes h) fun n hn f hf => ?_
    have hdeclares : Declares file n (.inl f) :=
      Sum.getLeft?_eq_some_iff.1 hf ▸ declares_entryOf h hn
    exact hdeclares.2.1
  · rw [hclasses, List.filterMap_map]
    refine inOrder_filterMap file hinFunctions hsize (pairwise_functionNodes h) fun n hn c hc => ?_
    have hdeclares : Declares file n (.inr c) :=
      Sum.getRight?_eq_some_iff.1 hc ▸ declares_entryOf h hn
    exact hdeclares.2.1
  · rw [hvars, ← List.filterMap_eq_map (f := variableEntry s file)]
    refine inOrder_filterMap file hinVariables hsize (pairwise_variableNodes h) fun n hn v hv => ?_
    obtain rfl := Option.some.inj hv
    exact (declares_variableEntry hn).2

/-- A function, a generator that is a class, and two names next to a pattern. -/
theorem constructorScript_extracted :
    ∃ s, Source.parse?
        "function f() \x7b\x7d\nfunction* K() \x7b this.a = 1; \x7d\nvar x, [y] = z; let w;" = some s ∧
      (functionNodes s).length = 2 ∧ (variableNodes s).length = 2 ∧
      ((Declarations.ofSource s "").functions.map (·.name) = ["f"] ∧
        (Declarations.ofSource s "").classes.map (·.name) = ["K"]) ∧
      List.Forall₂ (DeclaresVariable "") (variableNodes s) (Declarations.ofSource s "").vars ∧
      InOrder ((Declarations.ofSource s "").vars.map (·.location)) := by
  have hfacts : (Source.parse?
      "function f() \x7b\x7d\nfunction* K() \x7b this.a = 1; \x7d\nvar x, [y] = z; let w;").map (fun s =>
        ((functionNodes s).length, (variableNodes s).length,
          (Declarations.ofSource s "").functions.map (·.name),
          (Declarations.ofSource s "").classes.map (·.name))) = some (2, 2, ["f"], ["K"]) := by
    decide +kernel
  obtain ⟨s, h, hfacts⟩ := Option.map_eq_some_iff.1 hfacts
  simp only [Prod.mk.injEq] at hfacts
  obtain ⟨hfunctions, hvariables, hf, hk⟩ := hfacts
  obtain ⟨-, hvars, -, -, hplaces⟩ := declarations_extracted_once _ "" s h
  obtain ⟨-, -, -, horder⟩ := hplaces (by decide +kernel)
  exact ⟨s, h, hfunctions, hvariables, ⟨hf, hk⟩, hvars, horder⟩

end Extraction

end ScriptAtlas
