/-
The pieces of a script are its text (`texts_pieces`): every character is in the
tree, once and in order. The rules for markup, expressions and statements are
verbatim when the answers they build on are, and so are the answers, by induction
on the rounds of the rules. What follows for the tree is that the text of every
node stands in the text of the script.
-/
import ScriptAtlas.Proofs.SourceText
import ScriptAtlas.Script.Source

namespace ScriptAtlas.Script

open Lexis Shape

namespace Reader

variable {self : Answers} [∀ goal, Verbatim (self goal)]

/-! ## Markup -/

instance : Verbatim tagName where
  completes := by
    refine .bind fun first => .skip fun next => ?_
    split
    · exact .bind fun colon => .bind fun name => .pure (by simp)
    · exact .skip fun _ => completes_dottedFrom _ first
    · exact .pure rfl

instance : Verbatim (embedded self) := by unfold embedded; infer_instance

instance (quote : Char) : Verbatim (attributeString quote) :=
  ⟨.bind fun _ => .bind fun _ => .bind fun _ => .pure (by simp)⟩

instance : Verbatim (tagAttribute self) where
  completes := by
    refine .orElse Verbatim.completes (.bind fun name => .skip fun next => ?_)
    refine .joinAfter (fun more => .skip fun next => ?_) fun go =>
      .bind fun colon => .bind fun word => .pureBind (by simpa using go (colon ++ word))
    refine .joinAfter (fun value => .pure (by simp)) fun go =>
      .bind fun equals => .bind fun text => .pureBind (by simpa using go (equals ++ text))

instance : Verbatim (elementChild self) := by unfold elementChild; infer_instance

instance : Verbatim (element self) where
  completes := by
    refine .bind fun opening => .skip fun next => .skip fun _ => .bind fun name => ?_
    refine .join fun attributes => .join fun closed => .ite (fun _ => .pure (by simp)) fun hclosed => ?_
    have hclosed : texts closed = [] := texts_of_isEmpty (by simpa using hclosed)
    refine .bind fun tagEnd => .bind fun children => .bind fun closing => .bind fun last => ?_
    exact .bind fun ending => .pure (by simp [hclosed])

/-! ## Operators -/

instance (context : Context) : Peeks (isOver context) := by unfold isOver; infer_instance

instance (context : Context) : Verbatim (binaryOperator context) := by
  unfold binaryOperator; infer_instance

instance (context : Context) : Verbatim (operations self context) := by
  unfold operations; infer_instance

instance (context : Context) : Verbatim (expression self context) where
  completes := by
    refine .bind fun first => .bind fun more => .skip fun isOver => .skip fun next => ?_
    have hwhole : texts (if more.isEmpty then first else Pieces.wrap .binary (first ++ more)) =
        [] ++ texts first ++ texts more := by
      split
      · rename_i hempty
        simp [texts_of_isEmpty hempty]
      · simp
    refine .ite (fun _ => .pure hwhole) fun _ => ?_
    refine .bind fun question => .bind fun yes => .bind fun colon => .bind fun no => .pure ?_
    simp only [texts_wrap, texts_append, hwhole]

/-! ## Calls and members -/

instance : Verbatim memberName := by unfold memberName; infer_instance

@[simp] theorem texts_callOf (left chain args : Pieces) :
    texts (callOf left chain args) = texts left ++ texts chain ++ texts args := by
  simp [callOf]

instance : Verbatim (index self) := by unfold index; infer_instance

theorem completes_chainFrom (context : Context) (calls : Bool) : ∀ (n : Nat) (left : Pieces),
    Completes (texts left) (chainFrom self context calls n left)
  | 0, left => .pure rfl
  | n + 1, left => by
    have step {lead : List Char} {left : Pieces} (h : texts left = lead) :
        Completes lead (chainFrom self context calls n left) :=
      h ▸ completes_chainFrom context calls n left
    refine .skip fun isOver => .ite (fun _ => .pure rfl) fun _ => .skip fun next => ?_
    split
    · exact .bind fun dot => .bind fun name => step (by simp)
    · refine .bind fun dot => .skip fun next => ?_
      split
      · exact .bind fun args => step (by simp)
      · exact .bind fun index => step (by simp)
      · exact .bind fun name => step (by simp)
    · exact .bind fun index => step (by simp)
    · exact .bind fun args => step (by simp)
    · exact .ite (fun _ => .bind fun args => step (by simp)) fun _ => .pure rfl
    · exact .ite (fun _ => .bind fun operator => step (by simp)) fun _ => .pure rfl
    · exact .ite (fun _ => .bind fun operator => step (by simp)) fun _ => .pure rfl
    · exact .pure rfl

theorem completes_chain (context : Context) (left : Pieces) :
    Completes (texts left) (chain self context left) :=
  fun i => completes_chainFrom context true i.left left i

/-! ## Arrow functions and parentheses -/

instance : Peeks startsObject := by unfold startsObject; infer_instance

theorem completes_arrowFrom (context : Context) {before : List Char} {params : Pieces}
    (h : texts params = before) : Completes before (arrowFrom self context params) :=
  .bind fun _ => .skip fun _ => .join fun _ => .pure (by simp [h])

instance (context : Context) : Verbatim (parentheses self context) where
  completes := by
    refine .bind fun opening => .bind fun inside => .join fun trailing => .bind fun closing => ?_
    refine .skip fun next => .ite (fun _ => .ofOption fun params hp => ?_) fun _ => .guarded fun hg => ?_
    · exact completes_arrowFrom context (by simp [texts_toPatterns hp])
    · have htrailing : texts trailing = [] := texts_of_isEmpty (by simp_all)
      refine .pure ?_
      split <;> simp [htrailing]

theorem completes_nameOrArrow (context : Context) (name : Pieces) :
    Completes (texts name) (nameOrArrow self context [] name) := by
  exact .skip fun next => .ite (fun _ => completes_arrowFrom context (by simp)) fun _ => .pure rfl

/-- Where an arrow comes next, what stands before the name belongs to the function. -/
theorem completes_arrowAhead (context : Context) {before : List Char} {lead name : Pieces}
    (h : texts lead ++ texts name = before) :
    Completes before (do guard ((← nextMark) == "=>"); nameOrArrow self context lead name) := by
  intro i ps j hread
  obtain ⟨least, m, hm⟩ : ∃ least m, nextMark i = ⟨least, some (m, i)⟩ := ⟨_, _, rfl⟩
  cases hc : m == "=>" with
  | false =>
    simp [Bind.bind, Reader.bind, hm, hc, guard, fail] at hread
  | true =>
    have harrow : ((arrowFrom self context (lead ++ Pieces.withRole .parameter name)) i).found =
        some (ps, j) := by
      simpa [Bind.bind, Reader.bind, hm, hc, guard, nameOrArrow, pure] using hread
    exact completes_arrowFrom context (by simp [h]) i ps j harrow

@[simp] theorem texts_asMark (ps : Pieces) : texts (asyncOperand.word' ps) = texts ps := by
  induction ps with
  | nil => rfl
  | cons p ps ih =>
    rw [asyncOperand.word', List.map_cons, ← asyncOperand.word', texts_cons, texts_cons, ih]
    congr 1
    split <;> rfl

instance (context : Context) : Verbatim (asyncOperand self context) where
  completes := by
    refine .skip fun found => .ite (fun _ => Verbatim.completes) fun _ => .bind fun name => ?_
    refine .skip fun isOver => .ite (fun _ => .pure rfl) fun _ => .skip fun next => ?_
    split
    · refine .bind fun args => .skip fun next => .ite (fun _ => .pure (by simp)) fun _ => ?_
      refine .ofOption fun params hp => ?_
      obtain ⟨last, hlast, hp⟩ := Option.bind_eq_some_iff.1 hp
      have hargs := texts_dropLast hlast
      split at hp
      · exact completes_arrowFrom context (by simp [text, texts_toPatterns hp, ← hargs])
      · cases hp
    · exact completes_nameOrArrow context name
    · exact .orElse (.bind fun parameter => completes_arrowAhead context (by simp)) (.pure rfl)

/-! ## Operands -/

instance (context : Context) (k : Kind) {operator : Reader Pieces} [Verbatim operator] :
    Verbatim (prefixed self context k operator) := by
  unfold prefixed; infer_instance

instance (context : Context) : Verbatim (yielded self context) where
  completes := by
    refine .bind fun y => .skip fun isOver => .ite (fun _ => .pure (by simp)) fun _ => ?_
    refine .skip fun next => .ite (fun _ => ?_) fun _ => ?_
    · exact .bind fun star => .bind fun value => .pure (by simp)
    · exact .skip fun next => .join fun value => .pure (by simp)

instance (context : Context) : Verbatim (construction self context) where
  completes := by
    refine .bind fun new => .skip fun next => .ite (fun _ => ?_) fun _ => ?_
    · exact .bind fun dot => .bind fun target => .pure (by simp)
    · exact .bind fun made => .skip fun isOver => .skip fun next => .join fun args => .pure (by simp)

instance : Verbatim importValue where
  completes := by
    refine .orElse ?_ ?_
    · exact .bind fun word => .bind fun dot => .bind fun name => .pure (by simp)
    · exact .bind fun word => .skip fun next => .skip fun _ => .pure rfl

instance (context : Context) : Verbatim (wordOperand self context) where
  completes := by
    refine .skip fun next => ?_
    split
    case h_12 => exact .fail
    case h_13 => exact .bind fun name => completes_nameOrArrow context name
    all_goals exact Verbatim.completes

instance (context : Context) : Verbatim (primary self context) where
  completes := by
    refine .skip fun next => ?_
    split
    case h_11 => exact .bind fun name => .skip fun next => .skip fun _ => .pure rfl
    all_goals exact Verbatim.completes

instance (context : Context) : Verbatim (constructed self context) :=
  ⟨.bind fun first => .skip fun _ => completes_chainFrom context false _ first⟩

/-- What stands in parentheses, or else is a target, keeps its text when it is assigned to. -/
theorem text_assignable {p q : Shape}
    (h : (if p.kind? == some .parenthesized then some p else p.toTarget) = some q) :
    q.text = p.text := by
  split at h
  · rw [Option.some.inj h]
  · exact text_toTarget h

theorem completes_assignmentFrom (context : Context) (left : Pieces) :
    Completes (texts left) (assignmentFrom self context left) := by
  refine .skip fun isOver => .ite (fun _ => .pure rfl) fun _ => .skip fun next => ?_
  refine .ite (fun _ => ?_) fun _ => .ite (fun _ => ?_) fun _ => .pure rfl
  · split
    · rename_i target htarget
      obtain ⟨last, hlast, htarget⟩ := Option.bind_eq_some_iff.1 htarget
      have hleft := texts_dropLast hlast
      refine .bind fun equals => .bind fun right => .pure ?_
      simp [text_assignable htarget, ← hleft]
    · exact .pure rfl
  · exact .bind fun operator => .bind fun right => .pure (by simp)

instance (context : Context) : Verbatim (operand self context) where
  completes := by
    refine .bind fun lead => .skip fun m => .skip fun w => ?_
    have led {body : Reader Pieces} [Verbatim body] :
        Completes ([] ++ texts lead) (body >>= fun ps => Pure.pure (lead ++ ps)) :=
      .bind fun ps => .pure (by simp)
    refine .ite (fun _ => led) fun _ => .ite (fun _ => led) fun _ => .ite (fun _ => led) fun _ => ?_
    refine .ite (fun _ => led) fun _ => .ite (fun _ => led) fun _ => .bind fun first => ?_
    refine (completes_chain context first).after fun whole => ?_
    exact (completes_assignmentFrom context whole).after fun ps => .pure (by simp)

/-! ## Declarations -/

instance : Verbatim (binding self) where
  completes := by
    refine .skip fun next => ?_
    split
    · exact (verbatim_convert fun _ _ => text_toTarget).completes
    · exact (verbatim_convert fun _ _ => text_toTarget).completes
    · exact Verbatim.completes

instance (noIn : Bool) : Verbatim (initialValue self noIn) where
  completes := .skip fun _ => .ite (fun _ => .pure rfl) fun _ => Verbatim.completes

instance : Verbatim (declarator self) := ⟨.bind fun _ => .bind fun _ => .pure (by simp)⟩

instance (k : Kind) (w : String) : Verbatim (declarationOf self k w) :=
  ⟨.bind fun _ => .bind fun _ => .bind fun _ => .pure (by simp)⟩

instance : Verbatim (declarators self) where
  completes := by
    refine .skip fun next => ?_
    split
    case h_4 => exact .fail
    all_goals exact Verbatim.completes

instance : Peeks startsDeclaration := by unfold startsDeclaration; infer_instance

instance : Verbatim (declaration self) where
  completes := by
    refine .skip fun next => .ite (fun _ => Verbatim.completes) fun _ => ?_
    refine .skip fun starts => .skip fun _ => .skip fun next => ?_
    split <;> exact Verbatim.completes

/-! ## Simple statements -/

instance : Verbatim (expressionStatement self) := by unfold expressionStatement; infer_instance

instance (k : Kind) (w : String) : Verbatim (jump k w) :=
  ⟨.bind fun _ => .skip fun _ => .join fun _ => .bind fun _ => .pure (by simp)⟩

instance : Verbatim (returnStatement self) :=
  ⟨.bind fun _ => .skip fun _ => .join fun _ => .bind fun _ => .pure (by simp)⟩

instance : Verbatim (labelled self) := by unfold labelled; infer_instance

/-! ## Branches and loops -/

theorem completes_clause {w : String} {body : Reader Pieces} (h : Completes [] body) :
    Completes [] (clause w body) :=
  .skip fun _ => .ite (fun _ => h) fun _ => .pure rfl

instance (w : String) {body : Reader Pieces} [h : Verbatim body] : Verbatim (clause w body) :=
  ⟨completes_clause h.completes⟩

instance : Verbatim (ifStatement self) :=
  ⟨.bind fun _ => .bind fun _ => .bind fun _ => .bind fun _ => .pure (by simp)⟩

instance : Verbatim (switchBranch self) where
  completes := by
    refine .skip fun next => ?_
    split
    · exact .bind fun word => .bind fun value => .bind fun colon => .bind fun inside => .pure (by simp)
    · exact .bind fun word => .bind fun colon => .bind fun inside => .pure (by simp)

instance : Verbatim (switchStatement self) where
  completes := by
    refine .bind fun lead => .bind fun value => .bind fun opening => .bind fun branches => ?_
    exact .bind fun closing => .pure (by simp)

instance : Verbatim (loopTarget self) where
  completes := by
    refine .orElse ?_ (.orElse ?_ ?_)
    · refine .bind fun lead => .bind fun name => .skip fun ended => .bind fun value => ?_
      exact .skip fun _ => .pure (by simp)
    · exact .bind fun lead => .bind fun name => .pure (by simp)
    · have target : Verbatim (do chain self {} (← primary self {})) :=
        ⟨.bind fun first => completes_chain {} first⟩
      exact (verbatim_convert fun _ _ => text_assignable).completes

instance : Verbatim (forInStatement self) where
  completes := by
    refine .bind fun lead => .bind fun wait => .bind fun opening => .bind fun target => ?_
    refine .bind fun operator => .bind fun subject => .bind fun closing => .bind fun body => ?_
    exact .pure (by simp)

instance : Verbatim emptyStatement := ⟨.bind fun _ => .pure (by simp)⟩

instance : Verbatim (forStatement self) where
  completes := by
    refine .bind fun lead => .bind fun opening => .bind fun start => .bind fun condition => ?_
    exact .bind fun step => .bind fun closing => .bind fun body => .pure (by simp)

instance (k : Kind) (w : String) : Verbatim (conditioned self k w) := by
  unfold conditioned; infer_instance

instance : Verbatim (doStatement self) where
  completes := by
    refine .bind fun lead => .bind fun body => .bind fun loop => .bind fun condition => ?_
    exact .bind fun ending => .pure (by simp)

instance : Verbatim (tryStatement self) where
  completes := by
    refine .bind fun lead => .bind fun body => .bindOf (completes_clause ?_) fun handler =>
      .bindOf (completes_clause ?_) fun last => .pure (by simp)
    · refine .bind fun lead => .skip fun next => .joinAfter (fun caught => ?_) fun go => ?_
      · exact .bind fun body => .pure (by simp)
      · refine .bind fun opening => .bind fun name => .bind fun closing => .pureBind ?_
        simpa using go (opening ++ name ++ closing)
    · exact .bind fun lead => .bind fun body => .pure (by simp)

/-! ## Imports and exports -/

instance : Verbatim moduleName := by unfold moduleName; infer_instance

instance : Verbatim moduleSpecifier := ⟨.bind fun _ => .bind fun _ => .pure (by simp)⟩

instance : Verbatim moduleNames := ⟨.bind fun _ => .bind fun _ => .bind fun _ => .pure (by simp)⟩

instance : Verbatim moduleSpace := by unfold moduleSpace; infer_instance

instance : Verbatim moduleSource := by unfold moduleSource; infer_instance

instance : Verbatim (importStatement self) where
  completes := by
    refine .bind fun lead => ?_
    exact .bind fun what => .bind fun facts => .bind fun ending => .pure (by simp)

instance : Verbatim (exportStatement self) where
  completes := by
    refine .bind fun decorators => .bind fun lead => .skip fun ended => .skip fun _ => ?_
    exact .bind fun offered => .pure (by simp)

/-! ## Statements -/

instance : Verbatim (braced self) := by unfold braced; infer_instance

instance (w : String) : Verbatim (wordStatement self w) where
  completes := by
    unfold wordStatement
    split
    all_goals exact Verbatim.completes

instance (html : Bool) : Verbatim (statement self html) where
  completes := by
    refine .bind fun lead => .skip fun next => ?_
    have led {body : Reader Pieces} [Verbatim body] :
        Completes ([] ++ texts lead) (body >>= fun ps => Pure.pure (lead ++ ps)) :=
      .bind fun ps => .pure (by simp)
    split
    case h_4 =>
      refine .skip fun next => ?_
      split <;> exact led
    all_goals exact led

end Reader

/-! ## The circle of the rules -/

instance verbatim_rule {self : Answers} [∀ goal, Reader.Verbatim (self goal)] :
    ∀ goal, Reader.Verbatim (rule self goal)
  | .statement html => inferInstanceAs (Reader.Verbatim (Reader.statement self html))
  | .expression context => inferInstanceAs (Reader.Verbatim (Reader.expression self context))
  | .operand context => inferInstanceAs (Reader.Verbatim (Reader.operand self context))
  | .constructed context => inferInstanceAs (Reader.Verbatim (Reader.constructed self context))
  | .element => inferInstanceAs (Reader.Verbatim (Reader.element self))

instance verbatim_answers : ∀ (depth : Nat) (goal : Goal), Reader.Verbatim (answers depth goal)
  | 0, _ => inferInstanceAs (Reader.Verbatim Reader.fail)
  | depth + 1, goal =>
    have := verbatim_answers depth
    inferInstanceAs (Reader.Verbatim (rule (answers depth) goal))

instance : Reader.Verbatim shebang where
  completes := by
    have line : Splits fun s => if ['#', '!'].isPrefixOf s then
        some (s.takeWhile (· != '\n'), s.dropWhile (· != '\n')) else none := ⟨fun h => by
      obtain ⟨-, h⟩ := Option.ite_none_right_eq_some.1 h
      obtain ⟨rfl, rfl⟩ := Prod.mk.inj (Option.some.inj h)
      exact List.takeWhile_append_dropWhile⟩
    exact Reader.Verbatim.completes (r := Reader.optional (Reader.token _ (Reader.named .shebang)))

instance : Reader.Verbatim script :=
  ⟨fun i => Reader.Completes.bind (r := shebang) (fun _ => .bind fun _ => .pure (by simp)) i⟩

/-- **The pieces of a script are its text.** -/
theorem texts_pieces {text : List Char} {ps : Pieces} (h : pieces? text = some ps) :
    texts ps = text := by
  unfold pieces? at h
  split at h
  · rename_i ps' rest hread
    obtain ⟨hend, hps⟩ := Option.ite_none_right_eq_some.1 h
    obtain rfl := Option.some.inj hps
    have hall := Reader.Verbatim.completes (r := script) _ _ _ hread
    have hrest : rest.rest = [] := by simp_all
    simpa [hrest, Input.ofText] using hall
  · cases h

/-! ## The texts of nodes -/

namespace Node

theorem mem_ofKind {k : Kind} : ∀ {n m : Node},
    m ∈ ofKind k n ↔ m = n ∧ n.kind = k ∨ m ∈ allOfKind k n.parts
  | ⟨kind, _, _, _, _, _⟩, m => by
    by_cases hk : kind = k <;> simp [ofKind, hk]

theorem allOfKind_append (k : Kind) : ∀ ns ms : List Node,
    allOfKind k (ns ++ ms) = allOfKind k ns ++ allOfKind k ms
  | [], _ => rfl
  | n :: ns, ms => by simp [allOfKind, allOfKind_append k ns ms]

end Node

mutual

/-- The text of a node stands in the text of the piece that it comes from. -/
theorem infix_of_mem_place {k : Kind} : ∀ {p : Shape} {s : Spot} {n : Node},
    n ∈ Node.allOfKind k (place s p).1 → n.text.toList <:+: p.text
  | .blank t, s, n, h => nomatch h
  | .mark t, s, n, h => nomatch h
  | .leaf kind role c t, s, n, h => by
    simp only [place, Node.allOfKind, List.append_nil, Node.mem_ofKind, List.not_mem_nil, or_false] at h
    obtain ⟨rfl, -⟩ := h
    rw [String.toList_ofList]
    exact List.infix_rfl
  | .node kind role ps, s, n, h => by
    simp only [place, Node.allOfKind, List.append_nil, Node.mem_ofKind] at h
    rcases h with ⟨rfl, -⟩ | h
    · exact List.nil_infix
    · exact infix_of_mem_placeAll h

theorem infix_of_mem_placeAll {k : Kind} : ∀ {ps : Pieces} {s : Spot} {n : Node},
    n ∈ Node.allOfKind k (placeAll s ps).1 → n.text.toList <:+: texts ps
  | [], s, n, h => nomatch h
  | p :: ps, s, n, h => by
    simp only [placeAll, Node.allOfKind_append, List.mem_append] at h
    rcases h with h | h
    · exact (infix_of_mem_place h).trans (List.prefix_append _ _).isInfix
    · exact (infix_of_mem_placeAll h).trans (List.suffix_append _ _).isInfix

end

/-- **The text of every comment** stands in the script. -/
theorem infix_of_mem_comments {text : String} {s : Source} (h : Source.parse? text = some s)
    {c : Comment} (hc : c ∈ s.comments.comments) : c.text.toList <:+: text.toList := by
  obtain ⟨ps, hps, rfl⟩ := Option.map_eq_some_iff.1 h
  obtain ⟨n, hn, rfl⟩ := List.mem_map.1 hc
  rcases Node.mem_ofKind.1 hn with ⟨-, hk⟩ | hn
  · cases hk
  · have hinfix := infix_of_mem_placeAll hn
    rwa [texts_pieces hps] at hinfix

end ScriptAtlas.Script
