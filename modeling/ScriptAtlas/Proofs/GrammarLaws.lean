/-
Every script has a lawful syntax tree, laid out in order.

The rules for markup, expressions and statements keep the laws when the answers
they build on do. The answers come from rounds of the rules, so they are sound
by induction on the rounds (`sound_answers`), and `wellFormed_of_parse?` says what
follows of the tree of any script.
-/
import ScriptAtlas.Proofs.ReaderLaws

namespace ScriptAtlas.Script

open Shape

namespace Reader

variable {self : Answers}

/-! ## Markup -/

theorem yields_tagName : tagName.Yields Clean := by
  refine (yields_token_named _ (by decide)).bind fun first hf => .skip fun next => ?_
  split
  · refine (yields_mark _).bind fun colon hc => ?_
    exact (yields_token_named _ (by decide)).bind fun name hn =>
      .pure (by simp [hf.clean, hc, hn.clean])
  · exact .skip fun _ => (yields_dottedFrom _ hf).clean
  · exact .pure hf.clean

theorem yields_embedded (hs : self.Sound) : (embedded self).Yields (Whole none) := by
  refine (yields_mark _).bind fun opening ho => ?_
  refine (Yields.optional ((yields_spread hs).orElse (yields_expressions hs {})).clean).bind
    fun inside hi => ?_
  refine (yields_mark _).bind fun closing hc => ?_
  exact .pure (whole_wrap_clean (by decide) (by simp [ho, hi, hc]))

theorem yields_attributeString (quote : Char) : (attributeString quote).Yields (Whole none) := by
  refine (yields_token_plain _).bind fun opening ho => ?_
  refine Yields.bind (.many ((yields_adjacent_named _ (by decide)).orElse
    (yields_adjacent_named _ (by decide))).clean) fun parts hp => ?_
  refine (yields_adjacent_plain _).bind fun closing hc => ?_
  exact .pure (whole_wrap_clean (by decide) (by simp [ho, hp, hc]))

theorem yields_tagAttribute (hs : self.Sound) : (tagAttribute self).Yields (Whole none) := by
  refine (yields_embedded hs).orElse ?_
  refine (yields_token_named _ (by decide)).bind fun name hn => .skip fun next => ?_
  refine Yields.joinAfter (P := Clean) (fun _ => .pure clean_nil) (fun more hm => .skip fun next => ?_)
    fun _ go => (yields_mark _).bind fun colon hc => (yields_token_named _ (by decide)).bind
      fun word hw => .bind (.pure (clean_append.2 ⟨hc, hw.clean⟩)) go
  refine Yields.joinAfter (P := Clean) (fun _ => .pure clean_nil) (fun value hv =>
    .pure (whole_wrap_clean (by decide) (by simp [hn.clean, hm, hv]))) fun _ go => ?_
  refine (yields_mark _).bind fun equals he => Yields.bind ((yields_attributeString _).orElse
    ((yields_attributeString _).orElse ((yields_embedded hs).orElse hs.element))) fun text ht => ?_
  exact .bind (.pure (clean_append.2 ⟨he, ht.clean⟩)) go

theorem yields_elementChild (hs : self.Sound) : (elementChild self).Yields (Whole none) :=
  (yields_adjacent_named _ (by decide)).orElse ((yields_token_named _ (by decide)).orElse
    ((yields_embedded hs).orElse hs.element))

theorem yields_element (hs : self.Sound) : (element self).Yields (Whole none) := by
  refine (yields_token_plain _).bind fun opening ho => .skip fun next => .guarded fun _ => ?_
  refine Yields.bind (.optional yields_tagName) fun name hn => ?_
  refine Yields.join (P := Clean) (fun _ => .pure clean_nil)
    (fun _ => .many (yields_tagAttribute hs).clean) fun attributes ha => ?_
  refine Yields.join (P := Clean) (fun _ => .pure clean_nil)
    (fun _ => .optional (yields_token_plain _)) fun closed hc => ?_
  refine .ite (fun _ => .pure (whole_wrap_clean (by decide) (by simp [ho, hn, ha, hc]))) fun _ => ?_
  refine (yields_token_plain _).bind fun tagEnd ht => ?_
  refine Yields.bind (.many (yields_elementChild hs).clean) fun children hch => ?_
  refine (yields_token_plain _).bind fun closing hcl => ?_
  refine Yields.bind (.optional yields_tagName) fun last hl => ?_
  refine (yields_token_plain _).bind fun ending he => .pure ?_
  have first : Whole none (Pieces.wrap .tag (opening ++ name ++ attributes ++ tagEnd)) :=
    whole_wrap_clean (by decide) (by simp [ho, hn, ha, ht])
  have second : Whole none (Pieces.wrap .tag (closing ++ last ++ ending)) :=
    whole_wrap_clean (by decide) (by simp [hcl, hl, he])
  exact whole_wrap_clean (by decide)
    (clean_append.2 ⟨clean_append.2 ⟨first.clean, hch⟩, second.clean⟩)

/-! ## Operators -/

theorem yields_binaryOperator (context : Context) : (binaryOperator context).Yields Clean :=
  (yields_token_plain _).orElse ((yields_word _).orElse (.ite (fun _ => .fail) fun _ => yields_word _))

theorem yields_operations (hs : self.Sound) (context : Context) :
    (operations self context).Yields Clean := by
  refine .many (.skip fun isOver => .guarded fun _ => ?_)
  refine (yields_binaryOperator _).bind fun operator ho => ?_
  exact (hs.operand _).bind fun right hr => .pure (by simp [ho, hr.clean])

theorem yields_expression (hs : self.Sound) (context : Context) :
    (expression self context).Yields (Whole none) := by
  refine (hs.operand _).bind fun first hf => (yields_operations hs _).bind fun more hm => ?_
  have hwhole : Whole none (if more.isEmpty then first else Pieces.wrap .binary (first ++ more)) := by
    split
    · exact hf
    · exact whole_wrap_clean (by decide) (by simp [hf.clean, hm])
  refine .skip fun isOver => .skip fun next => .ite (fun _ => .pure hwhole) fun _ => ?_
  refine (yields_mark _).bind fun question hq => (hs.expression _).bind fun yes hy => ?_
  refine (yields_mark _).bind fun colon hc => (hs.expression _).bind fun no hn => .pure ?_
  exact whole_wrap_clean (by decide) (by simp only [clean_append]; exact
    ⟨⟨⟨⟨hwhole.clean, hq⟩, hy.clean⟩, hc⟩, hn.clean⟩)

/-! ## Calls and members -/

theorem yields_memberName : memberName.Yields (Whole none) :=
  (yields_anyWord (by decide)).orElse yields_privateName

theorem yields_index (hs : self.Sound) : (index self).Yields Clean := by
  refine (yields_mark _).bind fun opening ho => (yields_expressions hs _).bind fun value hv => ?_
  exact (yields_mark _).bind fun closing hc => .pure (by simp [ho, hv.clean, hc])

/-- A place in what stands on the left. -/
theorem whole_subscript {left index : Pieces} (hl : Whole none left) (hi : Clean index) :
    Whole none (Pieces.wrap .subscript (Pieces.withRole .object left ++ index)) := by
  have hl := hl.withRole (r := .object) (by decide)
  exact whole_wrap_of (l := [.object]) (by decide) (by simp [hl.lawful, hi.lawful])
    (by simp [hl.roles, hi.roles])

theorem yields_chainFrom (hs : self.Sound) (context : Context) (calls : Bool) :
    ∀ (n : Nat) {left : Pieces}, Whole none left →
      (chainFrom self context calls n left).Yields (Whole none)
  | 0, _, hl => .pure hl
  | n + 1, left, hl => by
    have step {left : Pieces} (hl : Whole none left) := yields_chainFrom hs context calls n hl
    have update (m : String) : (if calls then do
        chainFrom self context calls n (Pieces.wrap .update (left ++ (← mark m)))
      else return left : Reader Pieces).Yields (Whole none) :=
      .ite (fun _ => (yields_mark m).bind fun operator ho =>
        step (whole_wrap_clean (by decide) (by simp [hl.clean, ho]))) fun _ => .pure hl
    refine .skip fun isOver => .ite (fun _ => .pure hl) fun _ => .skip fun next => ?_
    split
    · refine (yields_mark _).bind fun dot hd => yields_memberName.bind fun name hn => ?_
      exact step (whole_member hl hd hn)
    · refine (yields_token_named _ (by decide)).bind fun dot hd => .skip fun next => ?_
      split
      · exact (yields_arguments hs).bind fun args ha => step (whole_callOf hl hd.clean ha)
      · refine (yields_index hs).bind fun index hi => step ?_
        rw [List.append_assoc]
        exact whole_subscript hl (by simp [hd.clean, hi])
      · exact yields_memberName.bind fun name hn => step (whole_member hl hd.clean hn)
    · exact (yields_index hs).bind fun index hi => step (whole_subscript hl hi)
    · exact (yields_template hs).bind fun args ha => step (whole_callOf hl clean_nil ha)
    · exact .ite (fun _ => (yields_arguments hs).bind fun args ha =>
        step (whole_callOf hl clean_nil ha)) fun _ => .pure hl
    · exact update "++"
    · exact update "--"
    · exact .pure hl

theorem yields_chain (hs : self.Sound) (context : Context) {left : Pieces} (hl : Whole none left) :
    (chain self context left).Yields (Whole none) :=
  fun i => yields_chainFrom hs context true i.left hl i

/-! ## Arrow functions and parentheses -/

/-- An arrow function, from one parameter or a list of them. -/
theorem yields_arrowFrom (hs : self.Sound) (context : Context) {params : Pieces}
    (hp : AllLawful params) (hr : roles params = [.parameter] ∨ roles params = [.parameters]) :
    (arrowFrom self context params).Yields (Whole none) := by
  refine (yields_mark _).bind fun arrow ha => .skip fun next => ?_
  refine Yields.join (P := Whole none) (fun _ => hs.expression _) (fun _ => (yields_block hs).orElse
    (.skip fun _ => .guarded fun _ => hs.expression _)) fun body hb => .pure ?_
  have hb := hb.withRole (r := .body) (by decide)
  have hall : AllLawful (params ++ arrow ++ Pieces.withRole .body body) := by
    simp [hp, ha.lawful, hb.lawful]
  rcases hr with hr | hr
  · exact whole_wrap_of (l := [.parameter, .body]) (by decide) hall
      (by simp [hr, ha.roles, hb.roles])
  · exact whole_wrap_of (l := [.parameters, .body]) (by decide) hall
      (by simp [hr, ha.roles, hb.roles])

theorem yields_parentheses (hs : self.Sound) (context : Context) :
    (parentheses self context).Yields (Whole none) := by
  refine (yields_mark _).bind fun opening ho => ?_
  refine Yields.bind (.optional (yields_items1 (yields_spreadOr hs).clean)) fun inside hi => ?_
  refine Yields.join (P := Clean) (fun _ => .pure clean_nil) (fun _ => .optional (yields_mark _))
    fun trailing ht => ?_
  refine (yields_mark _).bind fun closing hc => .skip fun next => .ite (fun _ => ?_) fun _ => ?_
  · refine Yields.ofOption.bind fun params hp => ?_
    obtain ⟨hlaw, hroles⟩ := lawful_toPatterns hp hi.lawful
    have list := whole_wrap_parameters (show Clean (opening ++ params ++ trailing ++ closing) by
      simp [ho, (⟨hlaw, hroles.trans hi.roles⟩ : Clean params), ht, hc])
    exact yields_arrowFrom hs context list.lawful (.inr list.roles)
  · refine .guarded fun _ => .pure ?_
    refine whole_wrap_clean (by decide) (clean_append.2 ⟨clean_append.2 ⟨ho, ?_⟩, hc⟩)
    split
    · exact (whole_wrap_clean (by decide) hi).clean
    · exact hi

theorem yields_nameOrArrow (hs : self.Sound) (context : Context) {lead name : Pieces}
    (hl : Clean lead) (hn : Whole none name) :
    (nameOrArrow self context lead name).Yields (Whole none) := by
  have hp := hn.withRole (r := .parameter) (by decide)
  refine .skip fun next => .ite (fun _ => ?_) fun _ => .pure hn
  exact yields_arrowFrom hs context (by simp [hl.lawful, hp.lawful])
    (.inl (by simp [hl.roles, hp.roles]))

/-- A word that becomes a mark plays no role, as before. -/
theorem clean_asMark {ps : Pieces} (h : Clean ps) : Clean (asyncOperand.word' ps) := by
  constructor
  · refine allLawful_iff.2 fun q hq => ?_
    obtain ⟨p, hp, rfl⟩ := List.mem_map.1 hq
    split
    · trivial
    · exact allLawful_iff.1 h.lawful p hp
  · refine List.filterMap_eq_nil_iff.2 fun q hq => ?_
    obtain ⟨p, hp, rfl⟩ := List.mem_map.1 hq
    split
    · rfl
    · exact List.filterMap_eq_nil_iff.1 h.roles p hp

theorem yields_asyncOperand (hs : self.Sound) (context : Context) :
    (asyncOperand self context).Yields (Whole none) := by
  refine .skip fun found => .ite (fun _ => yields_functionValue hs) fun _ => ?_
  refine (yields_anyWord (by decide)).bind fun name hn => .skip fun isOver => ?_
  refine .ite (fun _ => .pure hn) fun _ => .skip fun next => ?_
  split
  · refine (yields_argumentList hs).bind fun args hargs => .skip fun next => ?_
    obtain ⟨ps, hps, rfl⟩ := hargs
    refine .ite (fun _ => .pure ?_) fun _ => Yields.ofOption.bind fun params hp => ?_
    · exact whole_callOf hn clean_nil (whole_wrap_clean (by decide) hps)
    -- The arguments turn out to be the parameters of an arrow function.
    replace hp : toPatterns (ps.dropWhile isGap) = some params := by
      simpa [Pieces.wrap] using hp
    obtain ⟨hlaw, hroles⟩ := lawful_toPatterns hp hps.lawful.dropGaps
    have list := whole_parameters hps.lawful.gaps
      ⟨hlaw, hroles.trans (hps.lawful.roles_dropGaps.trans hps.roles)⟩
    have lead := clean_asMark hn.clean
    refine yields_arrowFrom hs context ?_ (.inr ?_)
    · simp [Pieces.wrap, lead.lawful, list.lawful]
    · simp [Pieces.wrap, lead.roles, list.roles]
  · exact yields_nameOrArrow hs context clean_nil hn
  · refine Yields.orElse ((yields_anyWord (by decide)).bind fun parameter hp => ?_) (.pure hn)
    exact .skip fun next => .guarded fun _ => yields_nameOrArrow hs context (clean_asMark hn.clean) hp

/-! ## Operands -/

theorem yields_prefixed (hs : self.Sound) (context : Context) {k : Kind} (hk : k.Takes [])
    {operator : Reader Pieces} (ho : operator.Yields Clean) :
    (prefixed self context k operator).Yields (Whole none) :=
  ho.bind fun _ hop => (hs.operand _).bind fun _ hr =>
    .pure (whole_wrap_clean hk (clean_append.2 ⟨hop, hr.clean⟩))

theorem yields_yielded (hs : self.Sound) (context : Context) :
    (yielded self context).Yields (Whole none) := by
  refine (yields_word _).bind fun y hy => .skip fun isOver => ?_
  refine .ite (fun _ => .pure (whole_wrap_clean (by decide) hy)) fun _ => .skip fun next => ?_
  refine .ite (fun _ => ?_) fun _ => .skip fun next => ?_
  · refine (yields_mark _).bind fun star hst => (hs.expression _).bind fun value hv => ?_
    exact .pure (whole_wrap_clean (by decide) (by simp [hy, hst, hv.clean]))
  · exact Yields.join (P := Clean) (fun _ => .pure clean_nil)
      (fun _ => .optional (hs.expression _).clean) fun value hv =>
        .pure (whole_wrap_clean (by decide) (by simp [hy, hv]))

theorem yields_construction (hs : self.Sound) (context : Context) :
    (construction self context).Yields (Whole none) := by
  refine (yields_word _).bind fun new hn => .skip fun next => .ite (fun _ => ?_) fun _ => ?_
  · refine (yields_mark _).bind fun dot hd => (yields_word _).bind fun target ht => ?_
    exact .pure (whole_wrap_clean (by decide) (by simp [hn, hd, ht]))
  · refine (hs.constructed _).bind fun made hm => .skip fun isOver => .skip fun next => ?_
    exact Yields.join (P := Clean) (fun _ => (yields_arguments hs).clean)
      (fun _ => .pure clean_nil) fun args ha =>
        .pure (whole_wrap_clean (by decide) (by simp [hn, hm.clean, ha]))

theorem yields_importValue : importValue.Yields (Whole none) := by
  refine Yields.orElse ?_ ?_
  · refine (yields_word _).bind fun word hw => (yields_mark _).bind fun dot hd => ?_
    exact (yields_word _).bind fun name hn =>
      .pure (whole_wrap_clean (by decide) (by simp [hw, hd, hn]))
  · exact (yields_wordAs _ (by decide)).bind fun word hw => .skip fun next => .guarded fun _ =>
      .pure hw

theorem yields_wordOperand (hs : self.Sound) (context : Context) :
    (wordOperand self context).Yields (Whole none) := by
  refine .skip fun next => ?_
  split
  · exact yields_functionValue hs
  · exact yields_asyncOperand hs context
  · exact yields_classOf hs (by decide)
  · exact yields_construction hs context
  · exact yields_importValue
  iterate 6 exact yields_wordAs _ (by decide)
  · exact .fail
  · exact (yields_anyWord (by decide)).bind fun name hn =>
      yields_nameOrArrow hs context clean_nil hn

theorem yields_primary (hs : self.Sound) (context : Context) :
    (primary self context).Yields (Whole none) := by
  refine .skip fun next => ?_
  split
  · exact yields_parentheses hs context
  · exact yields_array hs
  · exact yields_object hs
  · exact yields_template hs
  · exact yields_string
  · exact yields_string
  · exact yields_regex
  · exact yields_regex
  · exact hs.element
  · exact yields_classOf hs (by decide)
  · exact yields_privateName.bind fun name hn => .skip fun next => .guarded fun _ => .pure hn
  · exact yields_number.orElse (yields_wordOperand hs context)

theorem yields_constructed (hs : self.Sound) (context : Context) :
    (constructed self context).Yields (Whole none) :=
  (yields_primary hs context).bind fun _ hf => .skip fun _ => yields_chainFrom hs context false _ hf

/-- What stands in parentheses, or else is a target, can be assigned to. -/
theorem standsFor_assignable {p q : Shape} (hp : p.Lawful)
    (h : (if p.kind? == some .parenthesized then some p else p.toTarget) = some q) :
    StandsFor q p := by
  split at h
  · obtain rfl := Option.some.inj h
    exact ⟨hp, rfl, rfl, rfl⟩
  · exact standsFor_toTarget h hp

theorem yields_assigned (hs : self.Sound) (context : Context) {k : Kind} (hk : k.Takes [.left, .right])
    (m : String) {left : Pieces} (hl : Whole none left) :
    (do
      let operator ← mark m
      let right ← self (.expression context)
      return Pieces.wrap k (Pieces.withRole .left left ++ operator ++ Pieces.withRole .right right) :
      Reader Pieces).Yields (Whole none) := by
  refine (yields_mark _).bind fun operator ho => (hs.expression _).bind fun right hr => .pure ?_
  have hl := hl.withRole (r := .left) (by decide)
  have hr := hr.withRole (r := .right) (by decide)
  exact whole_wrap_of hk (by simp [hl.lawful, ho.lawful, hr.lawful])
    (by simp [hl.roles, ho.roles, hr.roles])

theorem yields_assignmentFrom (hs : self.Sound) (context : Context) {left : Pieces}
    (hl : Whole none left) : (assignmentFrom self context left).Yields (Whole none) := by
  refine .skip fun isOver => .ite (fun _ => .pure hl) fun _ => .skip fun next => ?_
  refine .ite (fun _ => ?_) fun _ => .ite (fun _ => ?_) fun _ => .pure hl
  · split
    · rename_i target htarget
      obtain ⟨gap, main, rfl, hg, hm⟩ := hl
      have hstands := standsFor_assignable hm.lawful (by simpa using htarget)
      rw [List.dropLast_concat]
      exact yields_assigned hs context (by decide) _ ⟨gap, target, rfl, hg, hstands.solid hm⟩
    · exact .pure hl
  · exact yields_assigned hs context (by decide) _ hl

/-- A whole behind a gap. -/
theorem yields_led {lead : Pieces} (hl : Gaps lead) {body : Reader Pieces}
    (h : body.Yields (Whole none)) :
    (body >>= fun ps => Pure.pure (lead ++ ps)).Yields (Whole none) :=
  h.bind fun _ hps => .pure (hps.lead hl)

theorem yields_operand (hs : self.Sound) (context : Context) :
    (operand self context).Yields (Whole none) := by
  refine (yields_gaps _).bind fun lead hlead => .skip fun m => .skip fun w => ?_
  have whole {body : Reader Pieces} (h : body.Yields (Whole none)) := yields_led hlead h
  refine .ite (fun _ => whole (yields_prefixed hs _ (by decide) (yields_mark _))) fun _ => ?_
  refine .ite (fun _ => whole (yields_prefixed hs _ (by decide) (yields_mark _))) fun _ => ?_
  refine .ite (fun _ => whole (yields_prefixed hs _ (by decide) (yields_word _))) fun _ => ?_
  refine .ite (fun _ => whole (yields_prefixed hs _ (by decide) (yields_word _))) fun _ => ?_
  refine .ite (fun _ => whole (yields_yielded hs _)) fun _ => ?_
  refine (yields_primary hs _).bind fun first hf => (yields_chain hs _ hf).bind fun chain hc => ?_
  exact whole (yields_assignmentFrom hs _ hc)

/-! ## Declarations -/

theorem yields_binding (hs : self.Sound) : (binding self).Yields (Whole none) := by
  refine .skip fun next => ?_
  split
  · exact yields_convert (yields_array hs) fun _ _ => standsFor_toTarget
  · exact yields_convert (yields_object hs) fun _ _ => standsFor_toTarget
  · exact yields_anyWord (by decide)

/-- A value, which may be left out. -/
theorem yields_initialValue (hs : self.Sound) (noIn : Bool) : (initialValue self noIn).Yields
    fun ps => AllLawful ps ∧ (roles ps = [.value] ∨ roles ps = []) :=
  .skip fun _ => .ite (fun _ => .pure ⟨trivial, .inr rfl⟩) fun _ =>
    yields_optional_of (yields_valued (hs.expression _))

theorem yields_declarator (hs : self.Sound) : (declarator self).Yields (Whole none) := by
  refine (yields_binding hs).bind fun name hn => ?_
  refine (yields_initialValue hs _).bind fun value ⟨hv, hrole⟩ => .pure ?_
  have hn := hn.withRole (r := .name) (by decide)
  have hall : AllLawful (Pieces.withRole .name name ++ value) := by simp [hn.lawful, hv]
  rcases hrole with hr | hr
  · exact whole_wrap_of (l := [.name, .value]) (by decide) hall (by simp [hn.roles, hr])
  · exact whole_wrap_of (l := [.name]) (by decide) hall (by simp [hn.roles, hr])

theorem yields_declarationOf (hs : self.Sound) {k : Kind} (hk : k.Takes []) (w : String) :
    (declarationOf self k w).Yields (Whole none) := by
  refine (yields_word _).bind fun lead hl => ?_
  refine (yields_items1 (yields_declarator hs).clean).bind fun list hlist => ?_
  exact (yields_semicolon _).bind fun ending he =>
    .pure (whole_wrap_clean hk (by simp [hl, hlist, he]))

theorem yields_declarators (hs : self.Sound) : (declarators self).Yields (Whole none) := by
  refine .skip fun next => ?_
  split
  · exact yields_declarationOf hs (by decide) _
  · exact yields_declarationOf hs (by decide) _
  · exact .skip fun _ => .guarded fun _ => yields_declarationOf hs (by decide) _
  · exact .fail

theorem yields_declaration (hs : self.Sound) : (declaration self).Yields (Whole none) := by
  have cls : (classOf self .classDeclaration true).Yields (Whole none) :=
    yields_classOf hs (by decide)
  refine .skip fun next => .ite (fun _ => cls) fun _ => ?_
  refine .skip fun starts => .guarded fun _ => .skip fun next => ?_
  split
  · exact cls
  · exact yields_functionDeclaration hs
  · exact yields_functionDeclaration hs
  · exact yields_declarators hs

/-! ## Simple statements -/

theorem yields_expressionStatement (hs : self.Sound) :
    (expressionStatement self).Yields (Whole none) :=
  (yields_expressions hs _).bind fun _ hv => (yields_semicolon _).bind fun _ he =>
    .pure (whole_wrap_clean (by decide) (by simp [hv.clean, he]))

theorem yields_jump {k : Kind} (hk : k.Takes []) (w : String) : (jump k w).Yields (Whole none) := by
  refine (yields_word _).bind fun lead hl => .skip fun ended => ?_
  refine Yields.join (P := Clean) (fun _ => .pure clean_nil)
    (fun _ => .optional (yields_anyWord (by decide)).clean) fun label hlabel => ?_
  exact (yields_semicolon _).bind fun ending he =>
    .pure (whole_wrap_clean hk (by simp [hl, hlabel, he]))

theorem yields_returnStatement (hs : self.Sound) : (returnStatement self).Yields (Whole none) := by
  refine (yields_word _).bind fun lead hl => .skip fun ended => ?_
  refine Yields.join (P := Clean) (fun _ => .pure clean_nil)
    (fun _ => .optional (yields_expressions hs _).clean) fun value hv => ?_
  exact (yields_semicolon _).bind fun ending he =>
    .pure (whole_wrap_clean (by decide) (by simp [hl, hv, he]))

theorem yields_labelled (hs : self.Sound) : (labelled self).Yields (Whole none) := by
  refine (yields_anyWord (by decide)).bind fun label hl => (yields_mark _).bind fun colon hc => ?_
  exact (hs.statement _).bind fun body hb =>
    .pure (whole_wrap_clean (by decide) (by simp [hl.clean, hc, hb.clean]))

/-! ## Branches and loops -/

theorem yields_clause {w : String} {body : Reader Pieces} (h : body.Yields (Whole none)) :
    (clause w body).Yields Clean :=
  .skip fun _ => .ite (fun _ => h.clean) fun _ => .pure clean_nil

theorem yields_ifStatement (hs : self.Sound) : (ifStatement self).Yields (Whole none) := by
  refine (yields_word _).bind fun lead hl => (yields_parenthesized hs).bind fun condition hc => ?_
  refine (hs.statement _).bind fun yes hy => Yields.bind (yields_clause ?_) fun no hn =>
    .pure (whole_wrap_clean (by decide) (by simp [hl, hc.clean, hy.clean, hn]))
  exact (yields_word _).bind fun word hw => (hs.statement _).bind fun body hb =>
    .pure (whole_wrap_clean (by decide) (by simp [hw, hb.clean]))

theorem yields_switchBranch (hs : self.Sound) : (switchBranch self).Yields (Whole none) := by
  have body : (many do
      guard (!(["case", "default"].contains (← nextWord)))
      self (.statement true)).Yields Clean :=
    .many (.skip fun _ => .guarded fun _ => (hs.statement _).clean)
  refine .skip fun next => ?_
  split
  · refine (yields_word _).bind fun word hw => (yields_expressions hs _).bind fun value hv => ?_
    exact (yields_mark _).bind fun colon hc => body.bind fun inside hi =>
      .pure (whole_wrap_clean (by decide) (by simp [hw, hv.clean, hc, hi]))
  · refine (yields_word _).bind fun word hw => (yields_mark _).bind fun colon hc => ?_
    exact body.bind fun inside hi => .pure (whole_wrap_clean (by decide) (by simp [hw, hc, hi]))

theorem yields_switchStatement (hs : self.Sound) : (switchStatement self).Yields (Whole none) := by
  refine (yields_word _).bind fun lead hl => (yields_parenthesized hs).bind fun value hv => ?_
  refine (yields_mark _).bind fun opening ho => ?_
  refine Yields.bind (.many (yields_switchBranch hs).clean) fun branches hb => ?_
  refine (yields_mark _).bind fun closing hc => .pure ?_
  have body : Whole none (Pieces.wrap .switchBody (opening ++ branches ++ closing)) :=
    whole_wrap_clean (by decide) (by simp [ho, hb, hc])
  exact whole_wrap_clean (by decide) (clean_append.2 ⟨clean_append.2 ⟨hl, hv.clean⟩, body.clean⟩)

/-- What a loop binds may have a value. -/
theorem yields_loopTarget (hs : self.Sound) : (loopTarget self).Yields
    fun ps => AllLawful ps ∧ (roles ps = [.value] ∨ roles ps = []) := by
  refine Yields.orElse ?_ (.orElse ?_ ?_)
  · refine (yields_word _).bind fun lead hl => (yields_binding hs).bind fun name hn => ?_
    refine .skip fun ended => (yields_initialValue hs _).bind fun value ⟨hv, hrole⟩ => ?_
    refine .guarded fun _ => .pure ⟨by simp [hl.lawful, hn.lawful, hv], ?_⟩
    simpa [hl.roles, hn.roles] using hrole
  · refine ((yields_word _).orElse (yields_word _)).bind fun lead hl => ?_
    exact (yields_binding hs).bind fun name hn =>
      .pure ⟨by simp [hl.lawful, hn.lawful], .inr (by simp [hl.roles, hn.roles])⟩
  · refine (yields_convert ?_ fun _ _ h hp => standsFor_assignable hp h).mono fun _ h =>
      ⟨h.lawful, .inr h.roles⟩
    exact (yields_primary hs _).bind fun first hf => yields_chain hs _ hf

theorem yields_forInStatement (hs : self.Sound) : (forInStatement self).Yields (Whole none) := by
  refine (yields_word _).bind fun lead hl => ?_
  refine Yields.bind (.optional (yields_word _)) fun wait hw => ?_
  refine (yields_mark _).bind fun opening ho => ?_
  refine (yields_loopTarget hs).bind fun target ⟨ht, hrole⟩ => ?_
  refine ((yields_word _).orElse (yields_word _)).bind fun operator hop => ?_
  refine (yields_expressions hs _).bind fun subject hsub => (yields_mark _).bind fun closing hc => ?_
  refine (hs.statement _).bind fun body hb => .pure ?_
  have hb := hb.withRole (r := .body) (by decide)
  have hall : AllLawful (lead ++ wait ++ opening ++ target ++ operator ++ subject ++ closing ++
      Pieces.withRole .body body) := by
    simp [hl.lawful, hw.lawful, ho.lawful, ht, hop.lawful, hsub.lawful, hc.lawful, hb.lawful]
  rcases hrole with hr | hr
  · exact whole_wrap_of (l := [.value, .body]) (by decide) hall
      (by simp [hl.roles, hw.roles, ho.roles, hr, hop.roles, hsub.roles, hc.roles, hb.roles])
  · exact whole_wrap_of (l := [.body]) (by decide) hall
      (by simp [hl.roles, hw.roles, ho.roles, hr, hop.roles, hsub.roles, hc.roles, hb.roles])

theorem yields_emptyStatement : emptyStatement.Yields (Whole none) :=
  (yields_mark _).bind fun _ hm => .pure (whole_wrap_clean (by decide) hm)

theorem yields_forStatement (hs : self.Sound) : (forStatement self).Yields (Whole none) := by
  have ended : (do return (← expressions self {}) ++ (← mark ";") : Reader Pieces).Yields Clean :=
    (yields_expressions hs _).bind fun value hv => (yields_mark _).bind fun ending he =>
      .pure (by simp [hv.clean, he])
  refine (yields_word _).bind fun lead hl => (yields_mark _).bind fun opening ho => ?_
  refine Yields.bind ((yields_declarators hs).clean.orElse
    (ended.orElse yields_emptyStatement.clean)) fun start hst => ?_
  refine Yields.bind (ended.orElse yields_emptyStatement.clean) fun condition hco => ?_
  refine Yields.bind (.optional (yields_expressions hs _).clean) fun step hstep => ?_
  refine (yields_mark _).bind fun closing hc => (hs.statement _).bind fun body hb => ?_
  exact .pure (whole_wrap_body (by decide) (by simp [hl, ho, hst, hco, hstep, hc]) hb)

theorem yields_conditioned (hs : self.Sound) {k : Kind} (hk : k.Takes []) (w : String) :
    (conditioned self k w).Yields (Whole none) := by
  refine (yields_word _).bind fun lead hl => (yields_parenthesized hs).bind fun condition hc => ?_
  exact (hs.statement _).bind fun body hb =>
    .pure (whole_wrap_clean hk (by simp [hl, hc.clean, hb.clean]))

theorem yields_doStatement (hs : self.Sound) : (doStatement self).Yields (Whole none) := by
  refine (yields_word _).bind fun lead hl => (hs.statement _).bind fun body hb => ?_
  refine (yields_word _).bind fun loop hlo => (yields_parenthesized hs).bind fun condition hc => ?_
  exact (Yields.optional (yields_semicolon _)).bind fun ending he =>
    .pure (whole_wrap_clean (by decide) (by simp [hl, hb.clean, hlo, hc.clean, he]))

theorem yields_tryStatement (hs : self.Sound) : (tryStatement self).Yields (Whole none) := by
  refine (yields_word _).bind fun lead hl => (yields_block hs).bind fun body hb => ?_
  refine Yields.bind (yields_clause ?_) fun handler hh => Yields.bind (yields_clause ?_)
    fun last hlast => .pure ?_
  · refine (yields_word _).bind fun lead hl => .skip fun next => ?_
    refine Yields.joinAfter (P := Clean) (fun _ => .pure clean_nil) (fun caught hc => ?_) fun _ go => ?_
    · exact (yields_block hs).bind fun body hb =>
        .pure (whole_wrap_body (by decide) (by simp [hl, hc]) hb)
    · refine (yields_mark _).bind fun opening ho => (yields_binding hs).bind fun name hn => ?_
      exact (yields_mark _).bind fun closing hc =>
        .bind (.pure (by simp [ho, hn.clean, hc])) go
  · exact (yields_word _).bind fun lead hl => (yields_block hs).bind fun body hb =>
      .pure (whole_wrap_body (by decide) hl hb)
  · have hb := hb.withRole (r := .body) (by decide)
    exact whole_wrap_of (l := [.body]) (by decide)
      (by simp [hl.lawful, hb.lawful, hh.lawful, hlast.lawful])
      (by simp [hl.roles, hb.roles, hh.roles, hlast.roles])

/-! ## Imports and exports -/

theorem yields_moduleName : moduleName.Yields (Whole none) :=
  (yields_anyWord (by decide)).orElse yields_string

theorem yields_moduleSpecifier : moduleSpecifier.Yields (Whole none) := by
  refine yields_moduleName.bind fun name hn => ?_
  refine Yields.bind (.optional ((yields_word _).bind fun word hw => yields_moduleName.bind
    fun name hn => .pure (clean_append.2 ⟨hw, hn.clean⟩))) fun other ho => ?_
  exact .pure (whole_wrap_clean (by decide) (by simp [hn.clean, ho]))

theorem yields_moduleNames : moduleNames.Yields (Whole none) := by
  refine (yields_mark _).bind fun opening ho => ?_
  refine Yields.bind (.optional ((yields_items1 yields_moduleSpecifier.clean).bind fun list hl =>
    (Yields.optional (yields_mark _)).bind fun comma hc => .pure (clean_append.2 ⟨hl, hc⟩)))
    fun inside hi => ?_
  exact (yields_mark _).bind fun closing hc =>
    .pure (whole_wrap_clean (by decide) (by simp [ho, hi, hc]))

theorem yields_moduleSpace : moduleSpace.Yields (Whole none) := by
  refine (yields_mark _).bind fun star hst => (yields_word _).bind fun word hw => ?_
  exact yields_moduleName.bind fun name hn =>
    .pure (whole_wrap_clean (by decide) (by simp [hst, hw, hn.clean]))

theorem yields_moduleSource : moduleSource.Yields Clean :=
  (yields_word _).bind fun _ hw => yields_string.bind fun _ ht =>
    .pure (clean_append.2 ⟨hw, ht.clean⟩)

theorem yields_importStatement (hs : self.Sound) : (importStatement self).Yields (Whole none) := by
  refine (yields_word _).bind fun lead hl => ?_
  refine Yields.bind (P := Clean) (yields_string.clean.orElse ?_) fun what hw => ?_
  · refine Yields.bind (P := Clean) ?_ fun names hn => yields_moduleSource.bind fun source hsrc =>
      .pure (by simp [hn, hsrc])
    refine yields_moduleSpace.clean.orElse (yields_moduleNames.clean.orElse ?_)
    refine (yields_anyWord (by decide)).bind fun name hn => ?_
    refine Yields.bind (.optional ((yields_mark _).bind fun comma hc =>
      (yields_moduleSpace.orElse yields_moduleNames).bind fun list hl =>
        .pure (clean_append.2 ⟨hc, hl.clean⟩))) fun more hm => ?_
    exact .pure (by simp [hn.clean, hm])
  · refine Yields.bind (.optional ((yields_word _).bind fun word hw => (yields_object hs).bind
      fun facts hf => .pure (clean_append.2 ⟨hw, hf.clean⟩))) fun facts hf => ?_
    exact (yields_semicolon _).bind fun ending he =>
      .pure (whole_wrap_clean (by decide) (by simp [hl, hw, hf, he]))

theorem yields_exportStatement (hs : self.Sound) : (exportStatement self).Yields (Whole none) := by
  refine Yields.bind (.many (yields_decorator hs).clean) fun decorators hd => ?_
  refine (yields_word _).bind fun lead hl => .skip fun ended => .guarded fun _ => ?_
  refine Yields.bind (P := Clean) (.orElse ?listed (.orElse ?main (yields_declaration hs).clean))
    fun offered ho => .pure (whole_wrap_clean (by decide) (by simp [hd, hl, ho]))
  case listed =>
    refine Yields.bind (P := Clean) ?_ fun names hn => (yields_semicolon _).bind fun ending he =>
      .pure (by simp [hn, he])
    refine Yields.orElse ?_ (.orElse ?_ ?_)
    · exact yields_moduleSpace.bind fun space hsp => yields_moduleSource.bind fun source hsrc =>
        .pure (by simp [hsp.clean, hsrc])
    · exact (yields_mark _).bind fun star hst => yields_moduleSource.bind fun source hsrc =>
        .pure (by simp [hst, hsrc])
    · exact yields_moduleNames.bind fun names hn =>
        (Yields.optional yields_moduleSource).bind fun source hsrc =>
          .pure (by simp [hn.clean, hsrc])
  case main =>
    refine (yields_word _).bind fun word hw => Yields.bind (P := Clean) ?_ fun value hv =>
      .pure (by simp [hw, hv])
    refine (yields_declaration hs).clean.orElse ?_
    exact (hs.expression _).bind fun value hv => (yields_semicolon _).bind fun ending he =>
      .pure (by simp [hv.clean, he])

/-! ## Statements -/

theorem yields_braced (hs : self.Sound) : (braced self).Yields (Whole none) :=
  (yields_block hs).orElse (.skip fun _ => .guarded fun _ => yields_expressionStatement hs)

theorem yields_wordStatement (hs : self.Sound) (w : String) :
    (wordStatement self w).Yields (Whole none) := by
  unfold wordStatement
  split
  · exact yields_ifStatement hs
  · exact yields_switchStatement hs
  · exact (yields_forInStatement hs).orElse (yields_forStatement hs)
  · exact yields_conditioned hs (by decide) _
  · exact yields_conditioned hs (by decide) _
  · exact yields_doStatement hs
  · exact yields_tryStatement hs
  · exact yields_jump (by decide) _
  · exact yields_jump (by decide) _
  · exact (yields_word _).bind fun word hw => (yields_semicolon _).bind fun ending he =>
      .pure (whole_wrap_clean (by decide) (by simp [hw, he]))
  · exact yields_returnStatement hs
  · exact (yields_word _).bind fun word hw => (yields_expressions hs _).bind fun value hv =>
      (yields_semicolon _).bind fun ending he =>
        .pure (whole_wrap_clean (by decide) (by simp [hw, hv.clean, he]))
  · exact yields_declaration hs
  · exact yields_declaration hs
  · exact (yields_importStatement hs).orElse (yields_expressionStatement hs)
  · exact (yields_exportStatement hs).orElse
      ((yields_labelled hs).orElse (yields_expressionStatement hs))
  · refine .skip fun found => .ite (fun _ => yields_labelled hs) fun _ => .skip fun starts => ?_
    exact .ite (fun _ => yields_declaration hs) fun _ => yields_expressionStatement hs

theorem yields_statement (hs : self.Sound) (html : Bool) :
    (statement self html).Yields (Whole none) := by
  refine (yields_gaps _).bind fun lead hlead => .skip fun next => ?_
  split
  · exact yields_led hlead (yields_braced hs)
  · exact yields_led hlead yields_emptyStatement
  · exact yields_led hlead ((yields_declaration hs).orElse
      ((yields_exportStatement hs).orElse (yields_expressionStatement hs)))
  · refine .skip fun next => ?_
    split
    · exact yields_led hlead (yields_expressionStatement hs)
    · exact yields_led hlead (yields_wordStatement hs _)

end Reader

/-! ## The circle of the rules -/

/-- One round of the rules keeps the laws. -/
theorem Answers.Sound.rule {a : Answers} (h : a.Sound) : Answers.Sound (rule a) where
  statement html := Reader.yields_statement h html
  expression context := Reader.yields_expression h context
  operand context := Reader.yields_operand h context
  constructed context := Reader.yields_constructed h context
  element := Reader.yields_element h

theorem sound_answers (depth : Nat) : (answers depth).Sound := by
  induction depth with
  | zero => exact ⟨fun _ => .fail, fun _ => .fail, fun _ => .fail, fun _ => .fail, .fail⟩
  | succ depth ih => exact ih.rule

theorem yields_script : script.Yields Clean := by
  intro i
  refine Reader.Yields.bind (.optional ?_) (fun lead hl => ?_) i
  · exact (Reader.yields_token_named _ (by decide)).clean
  · exact (Reader.yields_statements (sound_answers _)).bind fun body hb => .pure (by simp [hl, hb])

/-- The pieces of a text are what is read as a script. -/
theorem of_pieces {P : Pieces → Prop} {text : List Char} {ps : Pieces} (hP : script.Yields P)
    (h : pieces? text = some ps) : P ps := by
  unfold pieces? at h
  split at h
  · rename_i ps' rest hread
    obtain ⟨-, hps⟩ := Option.ite_none_right_eq_some.1 h
    obtain rfl := Option.some.inj hps
    exact hP _ _ _ hread
  · cases h

theorem clean_pieces {text : List Char} {ps : Pieces} (h : pieces? text = some ps) : Clean ps :=
  of_pieces yields_script h

/-! ## The tree of a script -/

section

variable {text : String} {s : Source}

theorem root_eq_treeOf (h : Source.parse? text = some s) :
    ∃ ps, pieces? text.toList = some ps ∧ s.root = treeOf ps := by
  obtain ⟨ps, hps, rfl⟩ := Option.map_eq_some_iff.1 h
  exact ⟨ps, hps, rfl⟩

theorem lawful_treeOf {ps : Pieces} (h : Clean ps) : (treeOf ps).Lawful := by
  refine ⟨nofun, ⟨?_, nofun⟩, Node.allLawful_iff.2 (lawful_placeAll ps {} h.lawful)⟩
  rw [roles_placeAll, h.roles]
  exact List.mem_singleton_self _

/-- **Every script is well-formed.** -/
theorem wellFormed_of_parse? (h : Source.parse? text = some s) : s.WellFormed := by
  obtain ⟨ps, hps, hroot⟩ := root_eq_treeOf h
  constructor
  case kind => exact hroot ▸ rfl
  case role => exact hroot ▸ rfl
  case lawful => exact hroot ▸ lawful_treeOf (clean_pieces hps)
  case laid => exact hroot ▸ laid_placeAll ps {}

end

end ScriptAtlas.Script
