/-
What the statements of a script are made of. The laws of trees say which roles
the parts of a node play; here is what stands in them. An expression statement is
one expression, with nothing but comments behind it. The name of a function that
is declared is an identifier, and its body is a block of statements, of which
again each expression statement is one expression.

Both are properties of a node of a kind, so they are stated of the kind and the
pieces (`Form`), and the rules of the grammar are gone through once for all such
properties (`Fits.statement`): every rule makes its pieces into one node, and
only three kinds of nodes are asked for anything.
-/
import ScriptAtlas.Proofs.NodeStarts

namespace ScriptAtlas.Script

/-- A property of the pieces that a node of a kind is made of. -/
abbrev Form := Kind → Pieces → Prop

namespace Shape

/-! ## Pieces that have a form -/

section

variable {F : Form} {k : Kind} {p : Shape} {ps qs : Pieces}

/-- A node has the form. A word has no parts, so nothing is asked of it. -/
def Has (F : Form) : Shape → Prop
  | blank _ | mark _ => True
  | leaf k _ _ _ => k.isWord = true
  | node k _ ps => F k ps

/-- All the pieces have the form. -/
def All (F : Form) (ps : Pieces) : Prop := ∀ p ∈ ps, p.Has F

@[simp] theorem all_nil : All F [] := List.forall_mem_nil _

@[simp] theorem all_append : All F (ps ++ qs) ↔ All F ps ∧ All F qs := List.forall_mem_append

theorem has_of_isGap (h : p.isGap = true) : p.Has F := by
  cases p with
  | blank t => trivial
  | mark t => trivial
  | leaf k r c t =>
    rcases Bool.or_eq_true_iff.1 h with hk | hk <;> (obtain rfl := beq_iff_eq.1 hk; rfl)
  | node k r qs => cases h

theorem Gaps.all (h : Gaps ps) : All F ps := fun p hp => has_of_isGap (h p hp).1

/-- Pieces that are made into one node have the form if the node does. -/
theorem all_wrap (h : F k (ps.dropWhile isGap)) : All F (Pieces.wrap k ps) := by
  refine all_append.2 ⟨fun p hp => ?_, List.forall_mem_singleton.2 h⟩
  exact has_of_isGap (List.mem_takeWhile_imp hp)

end

/-! ## The forms of statements -/

/-- A piece that is no node, or a comment. -/
def IsIdle (p : Shape) : Prop := p.kind? = none ∨ p.isGap = true

/-- An expression statement is one expression, and nothing else in it is a node. -/
def OneExpression : Form
  | .expressionStatement, ps => ∃ main rest, ps = main :: rest ∧ Solid none main ∧ ∀ p ∈ rest, p.IsIdle
  | _, _ => True

/-- The name is an identifier, and the body is a block of statements. -/
structure NameAndBody (ps : Pieces) : Prop where
  name : ∀ p ∈ ps, p.role? = some .name → p.kind? = some .identifier
  body : ∀ p ∈ ps, p.role? = some .body → ∃ k qs, p = node k (some .body) qs ∧ All OneExpression qs

/-- What is asked of the statements at the top level. -/
def TopLevel : Form
  | .functionDeclaration, ps | .generatorDeclaration, ps => NameAndBody ps
  | _, _ => True

end Shape

open Shape

namespace Reader

variable {self : Answers} {F : Form}

/-! ## Every rule makes one node -/

theorem Yields.and {α : Type} {r : Reader α} {P Q : α → Prop} (hp : r.Yields P) (hq : r.Yields Q) :
    r.Yields fun a => P a ∧ Q a :=
  fun i a j h => ⟨hp i a j h, hq i a j h⟩

/-- What is found in either branch does not matter. -/
theorem Yields.skipEither {α β : Type} {c : Prop} [Decidable c] {r s : Reader α} {f : α → Reader β}
    {R : β → Prop} (hf : ∀ a, (f a).Yields R) : (if c then r >>= f else s >>= f).Yields R :=
  .ite (fun _ => .skip hf) fun _ => .skip hf

/-- The form asks nothing of nodes of the kind. -/
def Free (F : Form) (k : Kind) : Prop := ∀ ps, F k ps

theorem yields_wrap {k : Kind} (hk : Free F k) (ps : Pieces) :
    Yields (Pure.pure (Pieces.wrap k ps) : Reader Pieces) (All F) :=
  .pure (all_wrap (hk _))

theorem yields_declarationOf_free {k : Kind} (hk : Free F k) (w : String) :
    (declarationOf self k w).Yields (All F) :=
  .skip fun _ => .skip fun _ => .skip fun _ => yields_wrap hk _

theorem yields_jump_free {k : Kind} (hk : Free F k) (w : String) :
    (jump k w).Yields (All F) :=
  .skip fun _ => .skip fun _ => .skipEither fun _ => .skip fun _ => yields_wrap hk _

theorem yields_conditioned_free {k : Kind} (hk : Free F k) (w : String) :
    (conditioned self k w).Yields (All F) :=
  .skip fun _ => .skip fun _ => .skip fun _ => yields_wrap hk _

/-- The form is that of the expression statements and of the functions that are read, and it asks
nothing of other nodes. -/
structure Fits (a : Answers) (F : Form) : Prop where
  expression : (expressionStatement a).Yields (All F)
  function : (functionDeclaration a).Yields (All F)
  other : ∀ k, k ∉ [.expressionStatement, .functionDeclaration, .generatorDeclaration] → Free F k

namespace Fits

theorem classOf (hf : Fits self F) (needsName : Bool) :
    (classOf self .classDeclaration needsName).Yields (All F) :=
  .skip fun _ => .skip fun _ => .skip fun _ => .skipEither fun _ => .skip fun _ => .skip fun _ =>
    .skip fun _ => .skip fun _ => yields_wrap (hf.other _ (by decide)) _

theorem declarators (hf : Fits self F) : (declarators self).Yields (All F) := by
  refine .skip fun next => ?_
  split
  · exact yields_declarationOf_free (hf.other _ (by decide)) _
  · exact yields_declarationOf_free (hf.other _ (by decide)) _
  · exact .skip fun _ => .skip fun _ => yields_declarationOf_free (hf.other _ (by decide)) _
  · exact .fail

theorem declaration (hf : Fits self F) : (declaration self).Yields (All F) := by
  refine .skip fun next => .ite (fun _ => hf.classOf true) fun _ => .skip fun _ => .skip fun _ =>
    .skip fun word => ?_
  split
  · exact hf.classOf true
  · exact hf.function
  · exact hf.function
  · exact hf.declarators

theorem labelled (hf : Fits self F) : (labelled self).Yields (All F) :=
  .skip fun _ => .skip fun _ => .skip fun _ => yields_wrap (hf.other _ (by decide)) _

theorem exportStatement (hf : Fits self F) : (exportStatement self).Yields (All F) :=
  .skip fun _ => .skip fun _ => .skip fun _ => .skip fun _ => .skip fun _ =>
    yields_wrap (hf.other _ (by decide)) _

theorem loop (hf : Fits self F) : (forInStatement self <|> forStatement self).Yields (All F) := by
  refine .orElse ?_ ?_
  · exact .skip fun _ => .skip fun _ => .skip fun _ => .skip fun _ => .skip fun _ => .skip fun _ =>
      .skip fun _ => .skip fun _ => yields_wrap (hf.other _ (by decide)) _
  · exact .skip fun _ => .skip fun _ => .skip fun _ => .skip fun _ => .skip fun _ => .skip fun _ =>
      .skip fun _ => yields_wrap (hf.other _ (by decide)) _

theorem wordStatement (hf : Fits self F) (w : String) : (wordStatement self w).Yields (All F) := by
  unfold Reader.wordStatement
  split
  case h_1 =>
    exact .skip fun _ => .skip fun _ => .skip fun _ => .skip fun _ =>
      yields_wrap (hf.other _ (by decide)) _
  case h_2 =>
    exact .skip fun _ => .skip fun _ => .skip fun _ => .skip fun _ => .skip fun _ =>
      yields_wrap (hf.other _ (by decide)) _
  case h_3 => exact hf.loop
  case h_4 | h_5 => exact yields_conditioned_free (hf.other _ (by decide)) _
  case h_6 =>
    exact .skip fun _ => .skip fun _ => .skip fun _ => .skip fun _ => .skip fun _ =>
      yields_wrap (hf.other _ (by decide)) _
  case h_7 =>
    exact .skip fun _ => .skip fun _ => .skip fun _ => .skip fun _ =>
      yields_wrap (hf.other _ (by decide)) _
  case h_8 | h_9 => exact yields_jump_free (hf.other _ (by decide)) _
  case h_10 => exact .skip fun _ => .skip fun _ => yields_wrap (hf.other _ (by decide)) _
  case h_11 =>
    exact .skip fun _ => .skip fun _ => .skipEither fun _ => .skip fun _ =>
      yields_wrap (hf.other _ (by decide)) _
  case h_12 =>
    exact .skip fun _ => .skip fun _ => .skip fun _ => yields_wrap (hf.other _ (by decide)) _
  case h_13 | h_14 => exact hf.declaration
  case h_15 =>
    refine .orElse ?_ hf.expression
    exact .skip fun _ => .skip fun _ => .skip fun _ => .skip fun _ =>
      yields_wrap (hf.other _ (by decide)) _
  case h_16 => exact hf.exportStatement.orElse (hf.labelled.orElse hf.expression)
  case h_17 =>
    refine .skip fun found => .ite (fun _ => hf.labelled) fun _ => .skip fun starts => ?_
    exact .ite (fun _ => hf.declaration) fun _ => hf.expression

/-- **Every statement that is read has the form.** -/
theorem statement (hf : Fits self F) (html : Bool) : (statement self html).Yields (All F) := by
  have led {lead : Pieces} (hl : Gaps lead) {body : Reader Pieces} (hb : body.Yields (All F)) :
      (body >>= fun ps => Pure.pure (lead ++ ps)).Yields (All F) :=
    hb.bind fun ps hps => .pure (all_append.2 ⟨hl.all, hps⟩)
  refine (yields_gaps _).bind fun lead hlead => .skip fun next => ?_
  split
  · refine led hlead (.orElse ?_ (.skip fun _ => .skip fun _ => hf.expression))
    exact .skip fun _ => .skip fun _ => .skip fun _ => yields_wrap (hf.other _ (by decide)) _
  · exact led hlead (.skip fun _ => yields_wrap (hf.other _ (by decide)) _)
  · exact led hlead (hf.declaration.orElse (hf.exportStatement.orElse hf.expression))
  · refine .skip fun next => ?_
    split
    · exact led hlead hf.expression
    · exact led hlead (hf.wordStatement _)

end Fits

/-! ## Expression statements -/

theorem yields_semicolon_idle (value : Bool) :
    (semicolon value).Yields fun ps => ∀ p ∈ ps, p.IsIdle := by
  refine .skip fun _ => .ite (fun _ => .pure (List.forall_mem_nil _)) fun _ => ?_
  refine (yields_token _ plain).mono fun ps ⟨gap, c, t, he, hg⟩ => ?_
  rw [he]
  exact List.forall_mem_append.2 ⟨fun p hp => .inr (hg p hp).1, List.forall_mem_singleton.2 (.inl rfl)⟩

theorem fits_oneExpression (hs : self.Sound) : Fits self OneExpression where
  expression := by
    refine (yields_expressions hs _).bind fun value ⟨gap, main, hvalue, hg, hm⟩ => ?_
    refine (yields_semicolon_idle _).bind fun ending he => .pure (all_wrap ?_)
    rw [hvalue, hg.dropWhile hm.solid]
    exact ⟨main, ending, rfl, hm, he⟩
  function := by
    refine .skip fun _ => .skip fun _ => .skip fun star => .skip fun _ => .skipEither fun _ =>
      .skip fun _ => yields_wrap (fun ps => ?_) _
    split <;> trivial
  other k hk ps := by
    unfold OneExpression
    split
    · simp at hk
    · trivial

theorem yields_statement_oneExpression (depth : Nat) (html : Bool) :
    (answers depth (.statement html)).Yields (All OneExpression) := by
  cases depth with
  | zero => exact .fail
  | succ depth => exact (fits_oneExpression (sound_answers depth)).statement html

/-! ## Functions -/

theorem nameAndBody_append {ps qs : Pieces} (hp : NameAndBody ps) (hq : NameAndBody qs) :
    NameAndBody (ps ++ qs) :=
  ⟨List.forall_mem_append.2 ⟨hp.name, hq.name⟩, List.forall_mem_append.2 ⟨hp.body, hq.body⟩⟩

theorem nameAndBody_of_clean {ps : Pieces} (h : Clean ps) : NameAndBody ps := by
  have hnone : ∀ p ∈ ps, p.role? = none := List.filterMap_eq_nil_iff.1 h.roles
  constructor <;> (intro p hp hr; rw [hnone p hp] at hr; cases hr)

theorem yields_name : (Pieces.withRole .name <$> anyWord .identifier).Yields NameAndBody := by
  refine (yields_token _ _).map ?_
  rintro ps ⟨gap, c, t, rfl, hg⟩
  rw [show Pieces.withRole .name (gap ++ [named .identifier c t]) =
    gap ++ [leaf .identifier (some .name) c t] by simp [Pieces.withRole, Pieces.mapMain, withRole, named]]
  refine nameAndBody_append (nameAndBody_of_clean hg.clean) ⟨?_, ?_⟩
  · exact List.forall_mem_singleton.2 fun _ => rfl
  · exact List.forall_mem_singleton.2 fun hr => by cases hr

theorem yields_block_all (hs : self.Sound) (hst : ∀ html, (self (.statement html)).Yields (All F)) :
    (block self).Yields fun ps => ∃ qs, ps = Pieces.wrap .block qs ∧ AllLawful qs ∧ All F qs := by
  have marks (m : String) : (mark m).Yields (All F) :=
    (yields_token _ plain).mono fun ps ⟨gap, c, t, he, hg⟩ =>
      he ▸ all_append.2 ⟨hg.all, List.forall_mem_singleton.2 trivial⟩
  have inside : (statements self).Yields (All F) :=
    yields_statements_of (fun _ hg => hg.all) (fun _ _ hp hq => all_append.2 ⟨hp, hq⟩) hst
  refine ((yields_mark _).and (marks _)).bind fun opening ⟨ho, ho'⟩ => ?_
  refine ((yields_statements hs).and inside).bind fun inside ⟨hi, hi'⟩ => ?_
  refine ((yields_mark _).and (marks _)).bind fun closing ⟨hc, hc'⟩ => .pure ⟨_, rfl, ?_, ?_⟩
  · simp [ho.lawful, hi.lawful, hc.lawful]
  · simp [ho', hi', hc']

theorem yields_signatureAndBody_parts (hs : self.Sound)
    (hst : ∀ html, (self (.statement html)).Yields (All OneExpression)) :
    (signatureAndBody self).Yields NameAndBody := by
  refine (yields_parameters hs).bind fun params ⟨gap, main, hparams, hg, hm⟩ => ?_
  refine (yields_block_all hs hst).bind fun body ⟨qs, hbody, hlawful, hall⟩ => .pure ?_
  have hparameters : NameAndBody [main] := by
    constructor <;> exact List.forall_mem_singleton.2 fun hr => by rw [hm.role] at hr; cases hr
  have hblock : NameAndBody [node .block (some .body) (qs.dropWhile isGap)] := by
    refine ⟨List.forall_mem_singleton.2 (fun hr => by cases hr),
      List.forall_mem_singleton.2 fun _ => ?_⟩
    exact ⟨_, _, rfl, fun p hp => hall p ((List.dropWhile_sublist _).subset hp)⟩
  rw [hparams, hbody, show Pieces.withRole .body (Pieces.wrap .block qs) =
    qs.takeWhile isGap ++ [node .block (some .body) (qs.dropWhile isGap)] by
      simp [Pieces.withRole, Pieces.mapMain, Pieces.wrap, withRole]]
  exact nameAndBody_append (nameAndBody_append (nameAndBody_of_clean hg.clean) hparameters)
    (nameAndBody_append (nameAndBody_of_clean hlawful.gaps.clean) hblock)

theorem yields_functionDeclaration_topLevel (hs : self.Sound)
    (hst : ∀ html, (self (.statement html)).Yields (All OneExpression)) :
    (functionDeclaration self).Yields (All TopLevel) := by
  refine Yields.bind (.optional (yields_word _)) fun lead hlead => ?_
  refine (yields_word _).bind fun fn hfn => ?_
  refine Yields.bind (.optional (yields_mark _)) fun star hstar => .skip fun next => ?_
  refine Yields.join (P := NameAndBody) (fun _ => yields_name) (fun hc => absurd rfl hc)
    fun name hname => ?_
  refine (yields_signatureAndBody_parts hs hst).bind fun rest hrest => .pure (all_wrap ?_)
  have hall : NameAndBody (lead ++ fn ++ star ++ name ++ rest) :=
    nameAndBody_append (nameAndBody_append
      (nameAndBody_of_clean (by simp [hlead, hfn, hstar])) hname) hrest
  have hparts : NameAndBody ((lead ++ fn ++ star ++ name ++ rest).dropWhile isGap) :=
    ⟨fun p hp => hall.name p ((List.dropWhile_sublist _).subset hp),
      fun p hp => hall.body p ((List.dropWhile_sublist _).subset hp)⟩
  split <;> exact hparts

theorem fits_topLevel (hs : self.Sound)
    (hst : ∀ html, (self (.statement html)).Yields (All OneExpression)) : Fits self TopLevel where
  expression := .skip fun _ => .skip fun _ => yields_wrap (fun _ => trivial) _
  function := yields_functionDeclaration_topLevel hs hst
  other k hk ps := by
    unfold TopLevel
    split
    · simp at hk
    · simp at hk
    · trivial

theorem yields_statement_topLevel (depth : Nat) (html : Bool) :
    (answers depth (.statement html)).Yields (All TopLevel) := by
  cases depth with
  | zero => exact .fail
  | succ depth =>
    exact (fits_topLevel (sound_answers depth) (yields_statement_oneExpression depth)).statement html

end Reader

/-! ## The nodes of a script -/

theorem yields_script_topLevel : script.Yields (All TopLevel) := by
  intro i
  refine Reader.Yields.bind (r := shebang) (P := All TopLevel) (.orElse ?_ (.pure all_nil))
    (fun lead hl => ?_) i
  · refine (Reader.yields_token _ _).mono fun ps ⟨gap, c, t, he, hg⟩ => ?_
    rw [he]
    exact all_append.2 ⟨hg.all, List.forall_mem_singleton.2 rfl⟩
  · refine Reader.Yields.bind ?_ fun body hb => .pure (all_append.2 ⟨hl, hb⟩)
    exact Reader.yields_statements_of (fun _ hg => hg.all) (fun _ _ hp hq => all_append.2 ⟨hp, hq⟩)
      (Reader.yields_statement_topLevel _)

section

variable {F : Form} {n : Node} {ps qs : Pieces} {s : Spot}

/-- A node that is no word is laid out from pieces that have the form of its kind. -/
theorem form_of_mem_placeAll (h : All F ps) (hn : n ∈ (placeAll s ps).1) (hk : n.kind.isWord = false) :
    ∃ qs, F n.kind qs ∧ n.parts = (placeAll n.start qs).1 := by
  obtain ⟨before, p, after, rfl, hp⟩ := of_mem_placeAll hn
  have hform : p.Has F := h p (by simp)
  obtain ⟨hstart, ⟨c, t, rfl⟩ | ⟨qs, rfl, hparts⟩⟩ := of_mem_place hp
  · exact absurd hform (by simp [Has, hk])
  · exact ⟨qs, hform, hstart ▸ hparts⟩

/-- The parts of an expression statement are one expression and comments behind it. -/
def Node.IsOneExpression (n : Node) : Prop :=
  ∃ e rest, n.parts = e :: rest ∧ e.kind.isGap = false ∧ ∀ m ∈ rest, m.kind.isGap = true

theorem Shape.Solid.place {p : Shape} {role : Option Role} (h : Solid role p) (s : Spot) :
    ∃ e, (p.place s).1 = [e] ∧ e.kind.isGap = false := by
  cases p with
  | blank t => cases h.named
  | mark t => cases h.named
  | leaf k r c t => exact ⟨_, rfl, h.solid⟩
  | node k r ps =>
    refine ⟨_, rfl, ?_⟩
    have hword : k.isWord = false := h.lawful.2.1
    cases k <;> first | rfl | cases hword

theorem Shape.IsIdle.isGap {p : Shape} (h : p.IsIdle) (hn : n ∈ (p.place s).1) :
    n.kind.isGap = true := by
  obtain ⟨-, ⟨c, t, rfl⟩ | ⟨qs, rfl, -⟩⟩ := of_mem_place hn
  · rcases h with h | h
    · cases h
    · exact h
  · rcases h with h | h <;> cases h

theorem isOneExpression_of_form (h : OneExpression n.kind qs) (hk : n.kind = .expressionStatement)
    (hparts : n.parts = (placeAll n.start qs).1) : n.IsOneExpression := by
  rw [hk] at h
  obtain ⟨main, rest, rfl, hmain, hrest⟩ := h
  obtain ⟨e, he, hgap⟩ := hmain.place n.start
  refine ⟨e, (placeAll (place n.start main).2 rest).1, ?_, hgap, fun m hm => ?_⟩
  · calc n.parts = (place n.start main).1 ++ (placeAll (place n.start main).2 rest).1 := hparts
      _ = e :: (placeAll (place n.start main).2 rest).1 := by rw [he]; rfl
  · obtain ⟨before, p, after, rfl, hp⟩ := of_mem_placeAll hm
    exact (hrest p (by simp)).isGap hp

end

/-- **A function at the top level** has an identifier for its name, and what stands in its body as an
expression statement is one expression. -/
theorem declaration_parts {text : String} {s : Source} (h : Source.parse? text = some s) {n : Node}
    (hn : n ∈ s.root.parts) (hk : n.kind = .functionDeclaration ∨ n.kind = .generatorDeclaration) :
    (∀ name ∈ n.parts, name.role = some .name → name.kind = .identifier) ∧
    ∀ body ∈ n.parts, body.role = some .body → ∀ st ∈ body.parts,
      st.kind = .expressionStatement → st.IsOneExpression := by
  obtain ⟨ps, hps, hroot⟩ := root_eq_treeOf h
  rw [hroot] at hn
  have hword : n.kind.isWord = false := by rcases hk with hk | hk <;> rw [hk] <;> rfl
  obtain ⟨qs, hform, hparts⟩ :=
    form_of_mem_placeAll (of_pieces yields_script_topLevel hps) hn hword
  have hform : NameAndBody qs := by rcases hk with hk | hk <;> (rw [hk] at hform; exact hform)
  rw [hparts]
  constructor
  · intro name hname hrole
    obtain ⟨before, p, after, rfl, hp⟩ := of_mem_placeAll hname
    obtain ⟨hkind, hrole'⟩ := kind?_of_mem_place hp
    have hidentifier := hform.name p (by simp) (hrole'.trans hrole)
    exact Option.some.inj (hkind.symm.trans hidentifier)
  · intro body hbody hrole st hst hstatement
    obtain ⟨before, p, after, rfl, hp⟩ := of_mem_placeAll hbody
    obtain ⟨-, hrole'⟩ := kind?_of_mem_place hp
    obtain ⟨k, bs, rfl, hall⟩ := hform.body p (by simp) (hrole'.trans hrole)
    obtain ⟨-, ⟨_, _, he⟩ | ⟨_, he, hbs⟩⟩ := of_mem_place hp
    · cases he
    · obtain ⟨-, -, rfl⟩ := Shape.node.inj he
      rw [hbs] at hst
      obtain ⟨es, hes, hesparts⟩ := form_of_mem_placeAll hall hst (by rw [hstatement]; rfl)
      exact isOneExpression_of_form hes hstatement hesparts

end ScriptAtlas.Script
