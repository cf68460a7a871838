/-
What readers find obeys the laws of trees. `Yields` says it of a reader, with one
rule for each way of putting readers together. The rules of the grammar up to
classes follow here; each finds clean or whole pieces, given that the answers it
builds on do (`Sound`). `GrammarLaws` has the other rules.
-/
import ScriptAtlas.Proofs.PieceLaws

namespace ScriptAtlas.Script

/-! ## Readers and what they find -/

open Shape

namespace Reader

variable {α β : Type}

/-- Whatever the reader finds has the property. -/
def Yields (r : Reader α) (Q : α → Prop) : Prop := ∀ i a j, (r i).found = some (a, j) → Q a

namespace Yields

variable {r s : Reader α} {f : α → Reader β} {P Q : α → Prop} {R : β → Prop} {a : α}

protected theorem pure (h : Q a) : Yields (Pure.pure a : Reader α) Q := by
  rintro i _ j ⟨⟩
  exact h

theorem fail : Yields (Reader.fail : Reader α) Q := by
  rintro i a j ⟨⟩

protected theorem bind (h : r.Yields P) (hf : ∀ a, P a → (f a).Yields R) : (r >>= f).Yields R := by
  intro i b j hb
  simp only [Bind.bind, Reader.bind] at hb
  split at hb
  · cases hb
  · rename_i a j' hr
    exact hf a (h i a j' (by rw [hr])) j' b j hb

/-- What is found in between does not matter. -/
theorem skip (hf : ∀ a, (f a).Yields R) : (r >>= f).Yields R :=
  Yields.bind (P := fun _ => True) (fun _ _ _ _ => trivial) fun a _ => hf a

theorem orElse (hr : r.Yields Q) (hs : s.Yields Q) : (r <|> s).Yields Q := by
  intro i a j ha
  simp only [HOrElse.hOrElse, OrElse.orElse, Reader.orElse] at ha
  split at ha
  · exact hs i a j ha
  · exact hr i a j ha

theorem mono (h : r.Yields P) (hpq : ∀ a, P a → Q a) : r.Yields Q := fun i a j ha => hpq a (h i a j ha)

theorem map {g : α → β} (h : r.Yields P) (hg : ∀ a, P a → R (g a)) : (g <$> r).Yields R :=
  Yields.bind (f := fun a => Pure.pure (g a)) h fun a ha => .pure (hg a ha)

theorem clean {r : Reader Pieces} (h : r.Yields (Whole none)) : r.Yields Clean :=
  h.mono fun _ => Whole.clean

theorem ite {c : Prop} [Decidable c] (hr : c → r.Yields Q) (hs : ¬ c → s.Yields Q) :
    (if c then r else s).Yields Q := by
  split
  · exact hr ‹_›
  · exact hs ‹_›

/-- Go on from either branch. -/
theorem join {c : Prop} [Decidable c] (hr : c → r.Yields P) (hs : ¬ c → s.Yields P)
    (hf : ∀ a, P a → (f a).Yields R) : (if c then r >>= f else s >>= f).Yields R :=
  .ite (fun hc => (hr hc).bind hf) fun hc => (hs hc).bind hf

/-- Go on from either branch, where the first one reads several things before it goes on. -/
theorem joinAfter {c : Prop} [Decidable c] {r : Reader β} (hs : ¬ c → s.Yields P)
    (hf : ∀ a, P a → (f a).Yields R) (hr : c → (∀ a, P a → (f a).Yields R) → r.Yields R) :
    (if c then r else s >>= f).Yields R :=
  .ite (fun hc => hr hc hf) fun hc => (hs hc).bind hf

/-- Go on from a guard with what it says. -/
theorem guarded {b : Bool} {f : Unit → Reader β} (hf : b = true → (f ()).Yields R) :
    (Reader.guard b >>= f).Yields R := by
  refine Yields.bind (P := fun _ => b = true) ?_ fun _ => hf
  unfold Reader.guard
  split
  · rename_i hb
    exact .pure hb
  · exact .fail

theorem ofOption {o : Option α} : Yields (Reader.ofOption o) fun a => o = some a := by
  cases o with
  | none => exact .fail
  | some a => exact .pure rfl

theorem optional {r : Reader Pieces} (h : r.Yields Clean) : (Reader.optional r).Yields Clean :=
  h.orElse (.pure clean_nil)

theorem manyFrom {r : Reader Pieces} (h : r.Yields Clean) : ∀ (n : Nat) (found : List Pieces)
    (least : Nat), (∀ ps ∈ found, Clean ps) → (Reader.manyFrom r n found least).Yields Clean
  | 0, found, least, hf, i, ps, j, hps => by
    obtain ⟨rfl, -⟩ : found.reverse.flatten = ps ∧ _ := by simpa [Reader.manyFrom] using hps
    exact clean_flatten fun ps hp => hf ps (List.mem_reverse.1 hp)
  | n + 1, found, least, hf, i, ps, j, hps => by
    simp only [Reader.manyFrom] at hps
    split at hps
    · obtain ⟨rfl, -⟩ : found.reverse.flatten = ps ∧ _ := by simpa using hps
      exact clean_flatten fun ps hp => hf ps (List.mem_reverse.1 hp)
    · rename_i ps' j' hr
      refine manyFrom h n (ps' :: found) _ ?_ j' ps j hps
      rintro qs (_ | ⟨_, hq⟩)
      · exact h i ps' j' (by rw [hr])
      · exact hf qs hq

theorem many {r : Reader Pieces} (h : r.Yields Clean) : (Reader.many r).Yields Clean :=
  fun i => manyFrom h (i.left + 1) [] i.left (by simp) i

end Yields

/-! ## Gaps, words and marks -/

theorem gaps_gapsFrom (html : Bool) : ∀ (n : Nat) (found : Pieces) (i : Input), Gaps found →
    Gaps (gapsFrom html n found i).1
  | 0, found, i, h => h.reverse
  | n + 1, found, i, h => by
    have more (p : Shape) (hp : p.isGap = true ∧ p.Lawful) (j : Input) :
        Gaps (gapsFrom html n (p :: found) j).1 := by
      refine gaps_gapsFrom html n _ j fun q hq => ?_
      rcases List.mem_cons.1 hq with rfl | hq
      · exact hp
      · exact h q hq
    unfold gapsFrom
    split
    · extract_lets comment
      have hcomment : ∀ kind x, comment = some (kind, x) → kind.isWord = true ∧ kind.isGap = true := by
        intro kind x hc
        simp only [comment] at hc
        split at hc
        · obtain ⟨rfl, -⟩ := Prod.mk.inj (Option.some.inj hc)
          exact ⟨rfl, rfl⟩
        · split at hc
          · obtain ⟨_, -, hx⟩ := Option.map_eq_some_iff.1 hc
            obtain ⟨rfl, -⟩ := Prod.mk.inj hx
            exact ⟨rfl, rfl⟩
          · cases hc
      clear_value comment
      split
      · rename_i kind c t rest
        obtain ⟨hw, hg⟩ := hcomment _ _ rfl
        exact more (.leaf kind none c t) ⟨hg, hw, nofun, fun _ => rfl⟩ _
      · exact h.reverse
    · exact more (.blank _) ⟨rfl, trivial⟩ _

theorem yields_gaps (html : Bool) : (gaps html).Yields Gaps := by
  rintro i ps j h
  obtain rfl : (gapsFrom html (i.left + 1) [] i).1 = ps :=
    congrArg Prod.fst (Option.some.inj h)
  exact gaps_gapsFrom html _ [] i nofun

/-- A token is a gap and one piece. -/
theorem yields_token (split : List Char → Option Split) (make : Char → List Char → Shape) :
    (token split make).Yields fun ps => ∃ gap c t, ps = gap ++ [make c t] ∧ Gaps gap := by
  intro i ps j h
  simp only [token] at h
  split at h
  · rename_i c t rest hs
    obtain ⟨rfl, -⟩ := Prod.mk.inj (Option.some.inj h)
    exact ⟨_, c, t, rfl, gaps_gapsFrom false _ [] i nofun⟩
  · cases h

theorem yields_adjacent (split : List Char → Option Split) (make : Char → List Char → Shape) :
    (adjacent split make).Yields fun ps => ∃ c t, ps = [make c t] := by
  intro i ps j h
  simp only [adjacent] at h
  split at h
  · rename_i c t rest hs
    obtain ⟨rfl, -⟩ := Prod.mk.inj (Option.some.inj h)
    exact ⟨c, t, rfl⟩
  · cases h

/-- A mark or a word without a name. -/
theorem yields_token_plain (split : List Char → Option Split) : (token split plain).Yields Clean :=
  (yields_token split plain).mono fun _ ⟨_, _, _, he, hg⟩ =>
    he ▸ clean_append.2 ⟨hg.clean, ⟨trivial, trivial⟩, rfl⟩

theorem yields_adjacent_plain (split : List Char → Option Split) :
    (adjacent split plain).Yields Clean :=
  (yields_adjacent split plain).mono fun _ ⟨_, _, he⟩ => he ▸ ⟨⟨trivial, trivial⟩, rfl⟩

theorem solid_named {k : Kind} (hk : k.isWord = true ∧ k.isGap = false) (c : Char) (t : List Char) :
    Solid none (named k c t) :=
  ⟨⟨hk.1, nofun, fun _ => rfl⟩, rfl, rfl, hk.2⟩

/-- A word with a name. -/
theorem yields_token_named (split : List Char → Option Split) {k : Kind}
    (hk : k.isWord = true ∧ k.isGap = false) : (token split (named k)).Yields (Whole none) :=
  (yields_token split (named k)).mono fun _ ⟨gap, c, t, he, hg⟩ =>
    ⟨gap, named k c t, he, hg, solid_named hk c t⟩

theorem yields_adjacent_named (split : List Char → Option Split) {k : Kind}
    (hk : k.isWord = true ∧ k.isGap = false) : (adjacent split (named k)).Yields (Whole none) :=
  (yields_adjacent split (named k)).mono fun _ ⟨c, t, he⟩ =>
    ⟨[], named k c t, he, nofun, solid_named hk c t⟩

theorem yields_mark (m : String) : (mark m).Yields Clean := yields_token_plain _

theorem yields_word (w : String) : (word w).Yields Clean := yields_token_plain _

theorem yields_wordAs (w : String) {k : Kind} (hk : k.isWord = true ∧ k.isGap = false) :
    (wordAs w k).Yields (Whole none) :=
  yields_token_named _ hk

theorem yields_anyWord {k : Kind} (hk : k.isWord = true ∧ k.isGap = false) :
    (anyWord k).Yields (Whole none) :=
  yields_token_named _ hk

theorem yields_semicolon (value : Bool) : (semicolon value).Yields Clean :=
  .skip fun _ => .ite (fun _ => .pure clean_nil) fun _ => yields_mark _

/-! ## Answers -/

end Reader

/-- The answers to the goals keep the laws. -/
structure Answers.Sound (a : Answers) : Prop where
  statement : ∀ html, (a (.statement html)).Yields (Whole none)
  expression : ∀ context, (a (.expression context)).Yields (Whole none)
  operand : ∀ context, (a (.operand context)).Yields (Whole none)
  constructed : ∀ context, (a (.constructed context)).Yields (Whole none)
  element : (a .element).Yields (Whole none)

namespace Reader

variable {self : Answers}

/-! ## Lists and parentheses -/

theorem yields_items {item : Reader Pieces} (h : item.Yields Clean) : (items item).Yields Clean := by
  refine (Yields.optional h).bind fun first hfirst => ?_
  refine Yields.bind (.many ((yields_mark ",").bind fun comma hcomma => (Yields.optional h).bind
    fun next hnext => .pure (clean_append.2 ⟨hcomma, hnext⟩))) fun more hmore => ?_
  exact .pure (clean_append.2 ⟨hfirst, hmore⟩)

theorem yields_items1 {item : Reader Pieces} (h : item.Yields Clean) :
    (items1 item).Yields Clean := by
  refine h.bind fun first hfirst => ?_
  refine Yields.bind (.many ((yields_mark ",").bind fun comma hcomma => h.bind
    fun next hnext => .pure (clean_append.2 ⟨hcomma, hnext⟩))) fun more hmore => ?_
  exact .pure (clean_append.2 ⟨hfirst, hmore⟩)

theorem yields_expressions (hs : self.Sound) (context : Context) :
    (expressions self context).Yields (Whole none) := by
  refine (hs.expression context).bind fun first hfirst => ?_
  refine Yields.bind (.many ((yields_mark ",").bind fun comma hcomma =>
    (hs.expression context).bind fun next hnext =>
      .pure (clean_append.2 ⟨hcomma, hnext.clean⟩))) fun more hmore => ?_
  refine .pure ?_
  split
  · exact hfirst
  · exact whole_wrap_clean (by decide) (clean_append.2 ⟨hfirst.clean, hmore⟩)

theorem yields_parenthesized (hs : self.Sound) : (parenthesized self).Yields (Whole none) := by
  refine (yields_mark _).bind fun opening ho => ?_
  refine (yields_expressions hs {}).bind fun inside hi => ?_
  refine (yields_mark _).bind fun closing hc => ?_
  exact .pure (whole_wrap_clean (by decide) (by simp [ho, hi.clean, hc]))

theorem yields_spread (hs : self.Sound) : (spread self).Yields (Whole none) := by
  refine (yields_mark _).bind fun dots hd => ?_
  refine (hs.expression {}).bind fun value hv => ?_
  exact .pure (whole_wrap_clean (by decide) (by simp [hd, hv.clean]))

theorem yields_spreadOr (hs : self.Sound) :
    (spread self <|> self (.expression {})).Yields (Whole none) :=
  (yields_spread hs).orElse (hs.expression {})

theorem yields_argumentList (hs : self.Sound) :
    (arguments self).Yields fun args => ∃ ps, Clean ps ∧ args = Pieces.wrap .arguments ps := by
  refine (yields_mark _).bind fun opening ho => ?_
  refine (yields_items (yields_spreadOr hs).clean).bind fun inside hi => ?_
  refine (yields_mark _).bind fun closing hc => ?_
  exact .pure ⟨_, by simp [ho, hi, hc], rfl⟩

theorem yields_arguments (hs : self.Sound) : (arguments self).Yields (Whole none) :=
  (yields_argumentList hs).mono fun _ ⟨_, hp, he⟩ => he ▸ whole_wrap_clean (by decide) hp

/-- What is changed into something that can stand in its place. -/
theorem yields_convert {f : Shape → Option Shape} {r : Reader Pieces} (hr : r.Yields (Whole none))
    (hf : ∀ p q, f p = some q → p.Lawful → StandsFor q p) : (convert f r).Yields (Whole none) := by
  refine hr.bind fun ps hps => ?_
  refine Yields.ofOption.bind fun main hmain => Yields.ofOption.bind fun q hq => .pure ?_
  obtain ⟨gap, p, rfl, hg, hp⟩ := hps
  obtain rfl : p = main := by simpa using hmain
  exact ⟨gap, q, by simp, hg, (hf p q hq hp.lawful).solid hp⟩

/-! ## Literals -/

theorem yields_quoted (quote : Char) : (quoted quote).Yields (Whole none) := by
  refine (yields_token_plain _).bind fun opening ho => ?_
  refine Yields.bind (.many ((yields_adjacent_named _ (by decide)).orElse
    (yields_adjacent_named _ (by decide))).clean) fun parts hp => ?_
  refine (yields_token_plain _).bind fun closing hc => ?_
  exact .pure (whole_wrap_clean (by decide) (by simp [ho, hp, hc]))

theorem yields_string : string.Yields (Whole none) := (yields_quoted _).orElse (yields_quoted _)

theorem yields_number : number.Yields (Whole none) := yields_token_named _ (by decide)

theorem yields_regex : regex.Yields (Whole none) := by
  refine (yields_token_plain _).bind fun opening ho => ?_
  refine (yields_adjacent_named _ (by decide)).bind fun pattern hp => ?_
  refine (yields_adjacent_plain _).bind fun closing hc => ?_
  refine Yields.bind (.optional (yields_adjacent_named _ (by decide)).clean) fun flags hf => ?_
  exact .pure (whole_wrap_clean (by decide) (by simp [ho, hp.clean, hc, hf]))

theorem yields_template (hs : self.Sound) : (template self).Yields (Whole none) := by
  refine (yields_token_plain _).bind fun opening ho => ?_
  refine Yields.bind (.many (Yields.clean ?_)) fun parts hp => ?_
  · refine (yields_adjacent_named _ (by decide)).orElse
      ((yields_adjacent_named _ (by decide)).orElse ?_)
    refine (yields_adjacent_plain _).bind fun opening ho => ?_
    refine (yields_expressions hs {}).bind fun value hv => ?_
    refine (yields_mark _).bind fun closing hc => ?_
    exact .pure (whole_wrap_clean (by decide) (by simp [ho, hv.clean, hc]))
  · refine (yields_adjacent_plain _).bind fun closing hc => ?_
    exact .pure (whole_wrap_clean (by decide) (by simp [ho, hp, hc]))

theorem yields_array (hs : self.Sound) : (array self).Yields (Whole none) := by
  refine (yields_mark _).bind fun opening ho => ?_
  refine (yields_items (yields_spreadOr hs).clean).bind fun inside hi => ?_
  refine (yields_mark _).bind fun closing hc => ?_
  exact .pure (whole_wrap_clean (by decide) (by simp [ho, hi, hc]))

theorem yields_privateName : privateName.Yields (Whole none) := yields_token_named _ (by decide)

theorem yields_propertyName (hs : self.Sound) : (propertyName self).Yields (Whole none) := by
  refine (yields_anyWord (by decide)).orElse (yields_privateName.orElse
    (yields_string.orElse (yields_number.orElse ?_)))
  refine (yields_mark _).bind fun opening ho => ?_
  refine (hs.expression {}).bind fun value hv => ?_
  refine (yields_mark _).bind fun closing hc => ?_
  exact .pure (whole_wrap_clean (by decide) (by simp [ho, hv.clean, hc]))

/-! ## Blocks and functions -/

/-- What statements and gaps have, and two stretches of pieces have together if each has it, is found
of statements in a row. -/
theorem yields_statementsFrom {P : Pieces → Prop} (hgaps : ∀ ps, Gaps ps → P ps)
    (happend : ∀ ps qs, P ps → P qs → P (ps ++ qs))
    (hs : ∀ html, (self (.statement html)).Yields P) : ∀ (n : Nat) (html : Bool)
    (found : List Pieces) (least : Nat), (∀ ps ∈ found, P ps) →
    (statementsFrom self n html found least).Yields P := by
  have hflatten (found : List Pieces) (hf : ∀ ps ∈ found, P ps) : P found.reverse.flatten := by
    induction found with
    | nil => exact hgaps [] nofun
    | cons ps found ih =>
      rw [List.reverse_cons, List.flatten_concat]
      exact happend _ _ (ih fun qs hq => hf qs (by simp [hq])) (hf ps (by simp))
  intro n
  induction n with
  | zero =>
    rintro html found least hf i ps j hps
    obtain ⟨rfl, -⟩ := Prod.mk.inj (Option.some.inj hps)
    exact hflatten found hf
  | succ n ih =>
    rintro html found least hf i ps j hps
    simp only [statementsFrom] at hps
    split at hps
    · obtain ⟨rfl, -⟩ := Prod.mk.inj (Option.some.inj hps)
      exact happend _ _ (hflatten found hf) (hgaps _ (gaps_gapsFrom html _ [] i nofun))
    · rename_i ps' j' hr
      refine ih _ (ps' :: found) _ ?_ j' ps j hps
      rintro qs (_ | ⟨_, hq⟩)
      · exact hs html i ps' j' (by rw [hr])
      · exact hf qs hq

theorem yields_statements_of {P : Pieces → Prop} (hgaps : ∀ ps, Gaps ps → P ps)
    (happend : ∀ ps qs, P ps → P qs → P (ps ++ qs))
    (hs : ∀ html, (self (.statement html)).Yields P) : (statements self).Yields P :=
  fun i => yields_statementsFrom hgaps happend hs (i.left + 1) true [] i.left nofun i

theorem yields_statements (hs : self.Sound) : (statements self).Yields Clean :=
  yields_statements_of (fun _ h => h.clean) (fun _ _ hp hq => clean_append.2 ⟨hp, hq⟩)
    fun html => (hs.statement html).clean

theorem yields_block (hs : self.Sound) : (block self).Yields (Whole none) := by
  refine (yields_mark _).bind fun opening ho => ?_
  refine (yields_statements hs).bind fun inside hi => ?_
  refine (yields_mark _).bind fun closing hc => ?_
  exact .pure (whole_wrap_clean (by decide) (by simp [ho, hi, hc]))

theorem yields_parameter (hs : self.Sound) : (parameter self).Yields (Whole none) :=
  yields_convert (yields_spreadOr hs) fun _ _ => standsFor_toPattern

theorem yields_parameters (hs : self.Sound) :
    (parameters self).Yields fun ps => Whole (some .parameters) (Pieces.withRole .parameters ps) := by
  refine (yields_mark _).bind fun opening ho => ?_
  refine Yields.bind (.optional ?_) fun inside hi => ?_
  · refine (yields_items1 (yields_parameter hs).clean).bind fun list hl => ?_
    exact (Yields.optional (yields_mark _)).bind fun comma hc => .pure (clean_append.2 ⟨hl, hc⟩)
  · exact (yields_mark _).bind fun closing hc => .pure (whole_wrap_parameters (by simp [ho, hi, hc]))

theorem yields_signatureAndBody (hs : self.Sound) :
    (signatureAndBody self).Yields fun ps => AllLawful ps ∧ roles ps = [.parameters, .body] := by
  refine (yields_parameters hs).bind fun params hp => ?_
  refine (yields_block hs).bind fun body hb => ?_
  have hb := hb.withRole (r := .body) (by decide)
  exact .pure ⟨by simp [hp.lawful, hb.lawful], by simp [hp.roles, hb.roles]⟩

/-- A name that is put in its role. -/
theorem yields_named : (Pieces.withRole .name <$> anyWord .identifier).Yields
    (Whole (some .name)) :=
  (yields_anyWord (by decide)).map fun _ hn => hn.withRole (by decide)

theorem yields_functionOf (hs : self.Sound) {plainKind generatorKind : Kind} {needsName : Bool}
    (hk : ∀ k ∈ [plainKind, generatorKind], k.Takes [.name, .parameters, .body] ∧
      (needsName = false → k.Takes [.parameters, .body])) :
    (functionOf self plainKind generatorKind needsName).Yields (Whole none) := by
  refine Yields.bind (.optional (yields_word _)) fun lead hlead => ?_
  refine (yields_word _).bind fun fn hfn => ?_
  refine Yields.bind (.optional (yields_mark _)) fun star hstar => ?_
  have hk := hk (if star.isEmpty then plainKind else generatorKind) (by split <;> simp)
  refine .skip fun next => Yields.join
    (P := fun name => Whole (some .name) name ∨ needsName = false ∧ name = [])
    (fun _ => yields_named.mono fun _ => .inl) (fun hc => .pure (.inr ⟨?_, rfl⟩)) fun name hname => ?_
  · exact (Bool.or_eq_false_iff.1 (Bool.eq_false_iff.2 hc)).1
  · refine (yields_signatureAndBody hs).bind fun rest ⟨hrest, hroles⟩ => .pure ?_
    rcases hname with hname | ⟨hneeds, rfl⟩
    · refine whole_wrap_of hk.1 ?_ ?_
      · simp [hlead.lawful, hfn.lawful, hstar.lawful, hname.lawful, hrest]
      · simp [hlead.roles, hfn.roles, hstar.roles, hname.roles, hroles]
    · refine whole_wrap_of (hk.2 hneeds) ?_ ?_
      · simp [hlead.lawful, hfn.lawful, hstar.lawful, hrest]
      · simp [hlead.roles, hfn.roles, hstar.roles, hroles]

theorem yields_functionValue (hs : self.Sound) : (functionValue self).Yields (Whole none) :=
  yields_functionOf hs (by decide)

theorem yields_functionDeclaration (hs : self.Sound) :
    (functionDeclaration self).Yields (Whole none) :=
  yields_functionOf hs (by decide)

/-! ## Members and calls -/

section

variable {left chain dot name args : Pieces}

/-- A member starts with its object. -/
theorem whole_member (hl : Whole none left) (hd : Clean dot) (hn : Whole none name) :
    Whole none (Pieces.wrap .member
      (Pieces.withRole .object left ++ dot ++ Pieces.withRole .property name)) := by
  have hl := hl.withRole (r := .object) (by decide)
  have hn := hn.withRole (r := .property) (by decide)
  refine whole_wrap (by simp [hl.lawful, hd.lawful, hn.lawful]) rfl ?_ ?_
  · simp [hl.roles, hd.roles, hn.roles, Kind.fields]
  · rintro _ ⟨⟩
    rw [List.append_assoc]
    exact hl.head _

/-- A call starts with what is called. -/
theorem whole_callOf (hl : Whole none left) (hc : Clean chain) (ha : Whole none args) :
    Whole none (callOf left chain args) := by
  have hl := hl.withRole (r := .callee) (by decide)
  have ha := ha.withRole (r := .arguments) (by decide)
  refine whole_wrap (by simp [hl.lawful, hc.lawful, ha.lawful]) rfl ?_ ?_
  · simp [hl.roles, hc.roles, ha.roles, Kind.fields]
  · rintro _ ⟨⟩
    rw [List.append_assoc]
    exact hl.head _

theorem yields_dottedFrom : ∀ (n : Nat) {left : Pieces}, Whole none left →
    (dottedFrom n left).Yields (Whole none)
  | 0, _, hl => .pure hl
  | n + 1, left, hl => by
    refine .skip fun next => .ite (fun _ => .pure hl) fun _ => ?_
    refine (yields_mark _).bind fun dot hd => ?_
    refine (yields_anyWord (by decide)).bind fun name hn => ?_
    exact yields_dottedFrom n (whole_member hl hd hn)

theorem yields_dotted : dotted.Yields (Whole none) :=
  .skip fun _ => (yields_anyWord (by decide)).bind fun _ hn => yields_dottedFrom _ hn

theorem yields_decorator (hs : self.Sound) : (decorator self).Yields (Whole none) := by
  refine (yields_mark _).bind fun at_ hat => ?_
  refine yields_dotted.bind fun name hn => .skip fun next => ?_
  refine Yields.join (P := fun args => args.isEmpty = true ∨ Whole none args)
    (fun _ => (yields_arguments hs).mono fun _ => .inr) (fun _ => .pure (.inl rfl))
    fun args hargs => ?_
  refine .pure (whole_wrap_clean (by decide) (clean_append.2 ⟨hat, ?_⟩))
  split
  · exact hn.clean
  · rename_i hne
    have hcall := whole_callOf hn clean_nil (hargs.resolve_left hne)
    rw [callOf, List.append_nil] at hcall
    exact hcall.clean

end

theorem yields_modifier (inClass : Bool) (w : String) : (modifier inClass w).Yields Clean := by
  refine (yields_word _).bind fun m hm => .skip fun ended => ?_
  have rest : (do guard (← startsName); return m : Reader Pieces).Yields Clean :=
    .skip fun _ => .guarded fun _ => .pure hm
  exact .ite (fun _ => .skip fun _ => rest) fun _ => rest

theorem yields_staticGet : staticGet.Yields Clean := by
  refine (yields_word _).bind fun s hs => (yields_word _).bind fun g hg => .skip fun rest => ?_
  exact .guarded fun _ => .pure (clean_append.2 ⟨hs, hg⟩)

theorem yields_methodFrom (hs : self.Sound) {lead name : Pieces} (hl : Clean lead)
    (hn : Whole none name) : (methodFrom self lead name).Yields (Whole none) := by
  refine (yields_signatureAndBody hs).bind fun rest ⟨hrest, hroles⟩ => .pure ?_
  have hn := hn.withRole (r := .name) (by decide)
  refine whole_wrap_of (l := [.name, .parameters, .body]) (by decide) ?_ ?_
  · simp [hl.lawful, hn.lawful, hrest]
  · simp [hl.roles, hn.roles, hroles]

theorem yields_methodLead (inClass : Bool) : (methodLead inClass).Yields Clean := by
  refine Yields.bind (.optional (yields_modifier _ _)) fun a ha => ?_
  refine Yields.bind (.optional ((yields_modifier _ _).orElse
    ((yields_modifier _ _).orElse (yields_mark _)))) fun g hg => ?_
  exact .pure (clean_append.2 ⟨ha, hg⟩)

theorem yields_property (hs : self.Sound) : (property self).Yields (Whole none) := by
  refine (yields_spread hs).orElse ?_
  refine Yields.bind (.many (yields_decorator hs).clean) fun decorators hd => ?_
  refine Yields.bind (.optional (yields_modifier _ _)) fun static hst => ?_
  refine (yields_methodLead _).bind fun lead hl => ?_
  refine (yields_propertyName hs).bind fun name hn => .skip fun next => ?_
  refine .ite (fun _ => yields_methodFrom hs (by simp [hd, hst, hl]) hn) fun _ => ?_
  refine .guarded fun _ => ?_
  refine Yields.bind (.optional (yields_mark _)) fun colon hc => ?_
  refine .ite (fun _ => (hs.expression _).bind fun value hv => .pure ?_) fun _ => ?_
  · have hv := hv.withRole (r := .value) (by decide)
    refine whole_wrap_of (l := [.value]) (by decide) ?_ ?_
    · simp [hn.lawful, hc.lawful, hv.lawful]
    · simp [hn.roles, hc.roles, hv.roles]
  refine Yields.ofOption.bind fun word hword => ?_
  obtain ⟨gap, r, c, t⟩ := word
  -- The name is a word, so it can stand for a variable or start a pattern.
  obtain ⟨hg, rfl⟩ : Gaps gap ∧ r = none := by
    obtain ⟨gap', main, rfl, hg, hm⟩ := hn
    simp only [List.getLast?_append, List.getLast?_singleton, Option.some_or,
      List.dropLast_concat] at hword
    split at hword
    · rename_i heq
      obtain rfl := Option.some.inj heq
      simp only [Option.some.injEq, Prod.mk.injEq] at hword
      obtain ⟨rfl, rfl, -, -⟩ := hword
      exact ⟨hg, hm.role⟩
    · cases hword
  refine Yields.bind (.optional (yields_mark _)) fun equals he => ?_
  refine .ite (fun _ => .pure ?_) fun _ => (hs.expression _).bind fun value hv => .pure ?_
  · exact ⟨gap, _, rfl, hg, ⟨rfl, nofun, nofun⟩, rfl, rfl, rfl⟩
  · have hv := hv.withRole (r := .right) (by decide)
    have hword : Whole (some .left) (gap ++ [.leaf .shorthandPattern (some .left) c t]) :=
      ⟨gap, _, rfl, hg, ⟨rfl, by decide, by decide⟩, rfl, rfl, rfl⟩
    refine whole_wrap_of (l := [.left, .right]) (by decide) ?_ ?_
    · exact allLawful_append.2 ⟨allLawful_append.2 ⟨hword.lawful, he.lawful⟩, hv.lawful⟩
    · rw [roles_append, roles_append, hword.roles, he.roles, hv.roles]
      rfl

theorem yields_object (hs : self.Sound) : (object self).Yields (Whole none) := by
  refine (yields_mark _).bind fun opening ho => ?_
  refine (yields_items (yields_property hs).clean).bind fun inside hi => ?_
  refine (yields_mark _).bind fun closing hc => ?_
  exact .pure (whole_wrap_clean (by decide) (by simp [ho, hi, hc]))

/-! ## Classes -/

/-- A value after an equals sign. -/
theorem yields_valued {value : Reader Pieces} (h : value.Yields (Whole none)) :
    (do return (← mark "=") ++ Pieces.withRole .value (← value) : Reader Pieces).Yields
      fun ps => AllLawful ps ∧ roles ps = [.value] := by
  refine (yields_mark _).bind fun equals he => h.bind fun value hv => .pure ?_
  have hv := hv.withRole (r := .value) (by decide)
  exact ⟨by simp [he.lawful, hv.lawful], by simp [he.roles, hv.roles]⟩

/-- What may be missing has its roles or none. -/
theorem yields_optional_of {r : Reader Pieces} {rs : List Role}
    (h : r.Yields fun ps => AllLawful ps ∧ roles ps = rs) :
    (optional r).Yields fun ps => AllLawful ps ∧ (roles ps = rs ∨ roles ps = []) :=
  (h.mono fun _ hp => ⟨hp.1, .inl hp.2⟩).orElse (.pure ⟨trivial, .inr rfl⟩)

theorem yields_field (hs : self.Sound) {lead name : Pieces} (hl : Clean lead)
    (hn : Whole none name) : (field self lead name).Yields Clean := by
  have hn := hn.withRole (r := .property) (by decide)
  refine .skip fun ended => Yields.join
    (P := fun ps => AllLawful ps ∧ (roles ps = [.value] ∨ roles ps = []))
    (fun _ => .pure ⟨trivial, .inr rfl⟩)
    (fun _ => yields_optional_of (yields_valued (hs.expression _))) fun value ⟨hv, hrole⟩ => ?_
  refine (yields_semicolon _).bind fun ending he => .pure (clean_append.2 ⟨Whole.clean ?_, he⟩)
  have hall : AllLawful (lead ++ Pieces.withRole .property name ++ value) := by
    simp [hl.lawful, hn.lawful, hv]
  rcases hrole with hr | hr
  · exact whole_wrap_of (l := [.property, .value]) (by decide) hall
      (by simp [hl.roles, hn.roles, hr])
  · exact whole_wrap_of (l := [.property]) (by decide) hall (by simp [hl.roles, hn.roles, hr])

/-- Pieces in front of a body. -/
theorem whole_wrap_body {k : Kind} (hk : k.Takes [.body]) {lead body : Pieces} (hl : Clean lead)
    (hb : Whole none body) : Whole none (Pieces.wrap k (lead ++ Pieces.withRole .body body)) := by
  have hb := hb.withRole (r := .body) (by decide)
  exact whole_wrap_of hk (by simp [hl.lawful, hb.lawful]) (by simp [hl.roles, hb.roles])

theorem yields_staticBlock (hs : self.Sound) : (staticBlock self).Yields (Whole none) := by
  refine (yields_word _).bind fun static hst => .skip fun ended => .guarded fun _ => ?_
  exact (yields_block hs).bind fun body hb => .pure (whole_wrap_body (by decide) hst hb)

theorem yields_classMember (hs : self.Sound) : (classMember self).Yields Clean := by
  refine (yields_mark _).orElse ((yields_staticBlock hs).clean.orElse ?_)
  refine Yields.bind (.many (yields_decorator hs).clean) fun decorators hd => ?_
  refine Yields.bind (.optional (yields_staticGet.orElse (yields_modifier _ _)))
    fun static hst => ?_
  refine (yields_methodLead _).bind fun lead hl => ?_
  refine (yields_propertyName hs).bind fun name hn => .skip fun next => .ite (fun _ => ?_) fun _ => ?_
  · refine (yields_methodFrom hs (by simp [hd, hst, hl]) hn).bind fun m hm => ?_
    exact (Yields.optional (yields_mark _)).bind fun ending he =>
      .pure (clean_append.2 ⟨hm.clean, he⟩)
  · exact .guarded fun _ => yields_field hs (by simp [hd, hst]) hn

theorem yields_classOf (hs : self.Sound) {k : Kind} {needsName : Bool}
    (hk : k.Takes [.name, .body] ∧ (needsName = false → k.Takes [.body])) :
    (classOf self k needsName).Yields (Whole none) := by
  refine Yields.bind (.many (yields_decorator hs).clean) fun decorators hd => ?_
  refine (yields_word _).bind fun cls hc => .skip fun next => ?_
  refine Yields.join (P := fun name => Whole (some .name) name ∨ needsName = false ∧ name = [])
    (fun _ => yields_named.mono fun _ => .inl) (fun hn => .pure (.inr ⟨?_, rfl⟩)) fun name hname => ?_
  · exact (Bool.or_eq_false_iff.1 (Bool.eq_false_iff.2 hn)).1
  refine Yields.bind (.optional ?_) fun heritage hh => ?_
  · refine (yields_word _).bind fun lead hl => (hs.expression _).bind fun base hb => .pure ?_
    exact (whole_wrap_clean (by decide) (by simp [hl, hb.clean])).clean
  refine (yields_mark _).bind fun opening ho => ?_
  refine Yields.bind (.many (yields_classMember hs)) fun members hm => ?_
  refine (yields_mark _).bind fun closing hcl => .pure ?_
  have body := (whole_wrap_clean (k := .classBody) (by decide)
    (show Clean (opening ++ members ++ closing) by simp [ho, hm, hcl])).withRole (r := .body)
    (by decide)
  generalize Pieces.withRole .body _ = body' at body ⊢
  rcases hname with hname | ⟨hneeds, rfl⟩
  · refine whole_wrap_of hk.1 ?_ ?_
    · simp [hd.lawful, hc.lawful, hname.lawful, hh.lawful, body.lawful]
    · simp [hd.roles, hc.roles, hname.roles, hh.roles, body.roles]
  · refine whole_wrap_of (hk.2 hneeds) ?_ ?_
    · simp [hd.lawful, hc.lawful, hh.lawful, body.lawful]
    · simp [hd.roles, hc.roles, hh.roles, body.roles]

end Reader

end ScriptAtlas.Script
