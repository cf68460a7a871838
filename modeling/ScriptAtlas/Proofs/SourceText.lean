/-
What readers find is, character for character, the text that they take. `Verbatim`
says so of a reader, and `Completes` of one that goes on from pieces that were
read before it. Both follow the way a rule is put together from other rules; a
rule that only looks ahead takes nothing (`Peeks`). The rules up to classes
follow here, given that the answers they build on are verbatim. `WholeText` has
the other rules, and what follows for a script as a whole.
-/
import ScriptAtlas.Proofs.LexisLaws
import ScriptAtlas.Proofs.ReaderLaws

namespace ScriptAtlas.Script

/-! ## The text of pieces -/

namespace Shape

section

variable {p q : Shape} {ps qs : Pieces}

@[simp] theorem texts_nil : texts [] = [] := rfl

@[simp] theorem texts_cons (p : Shape) (ps : Pieces) : texts (p :: ps) = p.text ++ texts ps := rfl

@[simp] theorem texts_append (ps qs : Pieces) : texts (ps ++ qs) = texts ps ++ texts qs := by
  induction ps with
  | nil => rfl
  | cons p ps ih => simp [ih]

theorem texts_of_isEmpty (h : ps.isEmpty = true) : texts ps = [] := by
  rw [List.isEmpty_iff.1 h, texts_nil]

theorem texts_dropLast (h : ps.getLast? = some p) : texts ps.dropLast ++ p.text = texts ps := by
  obtain ⟨qs, rfl⟩ := List.getLast?_eq_some_iff.1 h
  simp

@[simp] theorem text_withRole (r : Role) (p : Shape) : (p.withRole r).text = p.text := by
  cases p <;> rfl

@[simp] theorem texts_withRole (r : Role) (ps : Pieces) : texts (Pieces.withRole r ps) = texts ps := by
  unfold Pieces.withRole Pieces.mapMain
  split
  · rename_i s hs
    simp [← texts_dropLast hs]
  · rename_i hs
    rw [List.getLast?_eq_none_iff.1 hs]

@[simp] theorem texts_wrap (k : Kind) (ps : Pieces) : texts (Pieces.wrap k ps) = texts ps := by
  calc texts (Pieces.wrap k ps)
      = texts (ps.takeWhile isGap) ++ texts (ps.dropWhile isGap) := by simp [Pieces.wrap, text]
    _ = texts ps := by rw [← texts_append, List.takeWhile_append_dropWhile]

mutual

/-- A pattern has the text of the expression that it was read as. -/
theorem text_toPattern : ∀ {p q : Shape}, p.toPattern = some q → q.text = p.text
  | blank t, q, h => by
    obtain rfl : blank t = q := by simpa [toPattern] using h
    rfl
  | mark t, q, h => by
    obtain rfl : mark t = q := by simpa [toPattern] using h
    rfl
  | leaf k r c t, q, h => by
    unfold toPattern at h
    split at h
    case h_6 => cases h
    all_goals
      obtain rfl := Option.some.inj h
      rfl
  | node k r ps, q, h => by
    unfold toPattern at h
    split at h
    case h_6 | h_7 =>
      obtain ⟨qs, hqs, rfl⟩ := Option.map_eq_some_iff.1 h
      exact texts_toPatterns hqs
    case h_8 =>
      obtain ⟨qs, hqs, rfl⟩ := Option.map_eq_some_iff.1 h
      exact texts_toPairParts hqs
    case h_9 =>
      split at h
      case h_1 qs hqs =>
        obtain ⟨-, hq⟩ := Option.ite_none_right_eq_some.1 h
        obtain rfl := Option.some.inj hq
        exact texts_toPatterns hqs
      case h_2 => cases h
    case h_10 =>
      obtain ⟨-, hq⟩ := Option.ite_none_right_eq_some.1 h
      obtain rfl := Option.some.inj hq
      rfl
    case h_11 => cases h
    all_goals
      obtain rfl := Option.some.inj h
      rfl

theorem texts_toPatterns : ∀ {ps qs : Pieces}, toPatterns ps = some qs → texts qs = texts ps
  | [], qs, h => by
    obtain rfl : [] = qs := by simpa [toPatterns] using h
    rfl
  | p :: ps, qs, h => by
    unfold toPatterns at h
    split at h
    case h_1 q qs' hq hqs =>
      obtain rfl := Option.some.inj h
      rw [texts_cons, texts_cons, text_toPattern hq, texts_toPatterns hqs]
    case h_2 => cases h

theorem texts_toPairParts : ∀ {ps qs : Pieces}, toPairParts ps = some qs → texts qs = texts ps
  | [], qs, h => by
    obtain rfl : [] = qs := by simpa [toPairParts] using h
    rfl
  | p :: ps, qs, h => by
    unfold toPairParts at h
    split at h
    case h_1 q qs' hq hqs =>
      obtain rfl := Option.some.inj h
      have hfirst : q.text = p.text := by
        split at hq
        · exact text_toPattern hq
        · rw [Option.some.inj hq]
      rw [texts_cons, texts_cons, hfirst, texts_toPairParts hqs]
    case h_2 => cases h

end

theorem text_toTarget (h : p.toTarget = some q) : q.text = p.text := by
  simp only [toTarget, Option.bind_eq_bind, Option.bind_eq_some_iff] at h
  obtain ⟨q', hq', hq⟩ := h
  obtain ⟨-, hq⟩ := Option.ite_none_right_eq_some.1 hq
  exact Option.some.inj hq ▸ text_toPattern hq'

end

end Shape

open Shape

/-! ## Readers that take nothing -/

namespace Reader

variable {α β : Type}

/-- The reader takes nothing. -/
class Peeks (r : Reader α) : Prop where
  same : ∀ {i a j}, (r i).found = some (a, j) → j = i

instance (a : α) : Peeks (pure a) where
  same h := (Prod.mk.inj (Option.some.inj h)).2.symm

instance (a : α) : Peeks (Pure.pure a : Reader α) := inferInstanceAs (Peeks (pure a))

instance : Peeks (fail : Reader α) where
  same h := nomatch h

instance {r : Reader α} {f : α → Reader β} [Peeks r] [∀ a, Peeks (f a)] : Peeks (r >>= f) where
  same {i b j} h := by
    simp only [Bind.bind, Reader.bind] at h
    split at h
    · cases h
    · rename_i a j' hr
      obtain rfl : j' = i := Peeks.same (r := r) (by rw [hr])
      exact Peeks.same h

instance {c : Prop} [Decidable c] {r s : Reader α} [Peeks r] [Peeks s] :
    Peeks (if c then r else s) := by
  split <;> infer_instance

instance (b : Bool) : Peeks (guard b) := inferInstanceAs (Peeks (if b then Pure.pure () else fail))

instance (o : Option α) : Peeks (ofOption o) := by
  cases o
  · exact inferInstanceAs (Peeks fail)
  · exact inferInstanceAs (Peeks (Pure.pure _))

instance : Peeks rest where
  same h := (Prod.mk.inj (Option.some.inj h)).2.symm

instance (r : Reader α) : Peeks (finds r) where
  same h := (Prod.mk.inj (Option.some.inj h)).2.symm

instance : Peeks nextMark where
  same h := (Prod.mk.inj (Option.some.inj h)).2.symm

instance : Peeks nextWord where
  same {i a j} h := by
    simp only [nextWord] at h
    split at h <;> exact (Prod.mk.inj (Option.some.inj h)).2.symm

instance (value : Bool) : Peeks (endsHere value) where
  same h := (Prod.mk.inj (Option.some.inj h)).2.symm

/-! ## Readers that lose nothing -/

/-- What the reader finds is `lead`, the text of what was read before it, and the text it takes. -/
def Completes (lead : List Char) (r : Reader Pieces) : Prop :=
  ∀ i ps j, (r i).found = some (ps, j) → texts ps ++ j.rest = lead ++ i.rest

/-- What the reader finds is the text it takes. -/
class Verbatim (r : Reader Pieces) : Prop where
  completes : Completes [] r

namespace Completes

variable {lead : List Char} {ps : Pieces} {r s : Reader Pieces} {f : Pieces → Reader Pieces}

protected theorem pure (h : texts ps = lead) : Completes lead (Pure.pure ps) := by
  rintro i _ j ⟨⟩
  rw [h]

theorem fail : Completes lead Reader.fail := by
  rintro i ps j ⟨⟩

/-- Go on from a reader that completes the last part of what was read before. -/
theorem after {mid : List Char} (hr : Completes mid r)
    (hf : ∀ ps, Completes (lead ++ texts ps) (f ps)) : Completes (lead ++ mid) (r >>= f) := by
  intro i qs j h
  simp only [Bind.bind, Reader.bind] at h
  split at h
  · cases h
  · rename_i ps j' hread
    have hps := hr i ps j' (by rw [hread])
    rw [hf ps j' qs j h, List.append_assoc, hps, List.append_assoc]

/-- Go on with all that was read so far. -/
theorem andThen (hr : Completes lead r) (hf : ∀ ps, Completes (texts ps) (f ps)) :
    Completes lead (r >>= f) :=
  show Completes ([] ++ lead) (r >>= f) from hr.after hf

/-- Go on with the pieces that a reader finds. -/
protected theorem bind [hr : Verbatim r] (hf : ∀ ps, Completes (lead ++ texts ps) (f ps)) :
    Completes lead (r >>= f) := by
  have hafter := hr.completes.after hf
  rwa [List.append_nil] at hafter

/-- The same, where the reader is not known to be verbatim by its form. -/
theorem bindOf (hr : Completes [] r) (hf : ∀ ps, Completes (lead ++ texts ps) (f ps)) :
    Completes lead (r >>= f) :=
  have : Verbatim r := ⟨hr⟩
  .bind hf

/-- Go on with what was only looked at. -/
theorem skip {r : Reader α} [Peeks r] {f : α → Reader Pieces} (hf : ∀ a, Completes lead (f a)) :
    Completes lead (r >>= f) := by
  intro i qs j h
  simp only [Bind.bind, Reader.bind] at h
  split at h
  · cases h
  · rename_i a j' hread
    obtain rfl : j' = i := Peeks.same (r := r) (by rw [hread])
    exact hf a j' qs j h

theorem orElse (hr : Completes lead r) (hs : Completes lead s) : Completes lead (r <|> s) := by
  intro i ps j h
  simp only [HOrElse.hOrElse, OrElse.orElse, Reader.orElse] at h
  split at h
  · exact hs i ps j h
  · exact hr i ps j h

theorem ite {c : Prop} [Decidable c] (hr : c → Completes lead r) (hs : ¬ c → Completes lead s) :
    Completes lead (if c then r else s) := by
  split
  · exact hr ‹_›
  · exact hs ‹_›

/-- Go on from either branch. -/
theorem join {c : Prop} [Decidable c] [Verbatim r] [Verbatim s]
    (hf : ∀ ps, Completes (lead ++ texts ps) (f ps)) :
    Completes lead (if c then r >>= f else s >>= f) :=
  .ite (fun _ => .bind hf) fun _ => .bind hf

/-- Go on from either branch, where the first one reads several things before it goes on. -/
theorem joinAfter {c : Prop} [Decidable c] [Verbatim s] (hf : ∀ ps, Completes (lead ++ texts ps) (f ps))
    (hr : (∀ ps, Completes (lead ++ texts ps) (f ps)) → Completes lead r) :
    Completes lead (if c then r else s >>= f) :=
  .ite (fun _ => hr hf) fun _ => .bind hf

theorem pureBind (h : Completes lead (f ps)) : Completes lead (Pure.pure ps >>= f) := fun i => h i

/-- Go on from a guard with what it says. -/
theorem guarded {b : Bool} {f : Unit → Reader Pieces} (hf : b = true → Completes lead (f ())) :
    Completes lead (guard b >>= f) := by
  cases b with
  | true => exact fun i => hf rfl i
  | false => rintro i ps j ⟨⟩

/-- Go on with a value that is there. -/
theorem ofOption {o : Option α} {f : α → Reader Pieces} (hf : ∀ a, o = some a → Completes lead (f a)) :
    Completes lead (Reader.ofOption o >>= f) := by
  cases o with
  | none => rintro i ps j ⟨⟩
  | some a => exact fun i => hf a rfl i

end Completes

section

variable {r s t : Reader Pieces}

instance : Verbatim (Pure.pure []) := ⟨.pure rfl⟩

instance : Verbatim (pure []) := ⟨.pure rfl⟩

instance : Verbatim fail := ⟨.fail⟩

instance [hr : Verbatim r] [hs : Verbatim s] : Verbatim (r <|> s) := ⟨hr.completes.orElse hs.completes⟩

instance {c : Prop} [Decidable c] [hr : Verbatim r] [hs : Verbatim s] :
    Verbatim (if c then r else s) :=
  ⟨.ite (fun _ => hr.completes) fun _ => hs.completes⟩

/-! Rules often read two or three things and put them into one node, or leave them side by side. -/

instance [Verbatim r] [Verbatim s] : Verbatim (do return (← r) ++ (← s)) :=
  ⟨.bind fun _ => .bind fun _ => .pure (by simp)⟩

instance [Verbatim r] [Verbatim s] [Verbatim t] : Verbatim (do return (← r) ++ (← s) ++ (← t)) :=
  ⟨.bind fun _ => .bind fun _ => .bind fun _ => .pure (by simp)⟩

instance (role : Role) [Verbatim r] [Verbatim s] :
    Verbatim (do return (← r) ++ Pieces.withRole role (← s)) :=
  ⟨.bind fun _ => .bind fun _ => .pure (by simp)⟩

instance (k : Kind) [Verbatim r] [Verbatim s] :
    Verbatim (do return Pieces.wrap k ((← r) ++ (← s))) :=
  ⟨.bind fun _ => .bind fun _ => .pure (by simp)⟩

instance (k : Kind) [Verbatim r] [Verbatim s] [Verbatim t] :
    Verbatim (do return Pieces.wrap k ((← r) ++ (← s) ++ (← t))) :=
  ⟨.bind fun _ => .bind fun _ => .bind fun _ => .pure (by simp)⟩

instance {r : Reader α} {f : α → Reader Pieces} [Peeks r] [hf : ∀ a, Verbatim (f a)] :
    Verbatim (r >>= f) :=
  ⟨.skip fun a => (hf a).completes⟩

instance (role : Role) [Verbatim r] : Verbatim (Pieces.withRole role <$> r) :=
  ⟨.bind fun _ => .pure (by simp)⟩

instance [Verbatim r] : Verbatim (optional r) := inferInstanceAs (Verbatim (r <|> Pure.pure []))

/-- What was found before is kept, round after round. -/
theorem completes_manyFrom [hr : Verbatim r] : ∀ (n : Nat) (found : List Pieces) (least : Nat),
    Completes (texts found.reverse.flatten) (manyFrom r n found least)
  | 0, found, least => by
    rintro i ps j ⟨⟩
    rfl
  | n + 1, found, least => by
    intro i ps j h
    simp only [manyFrom] at h
    split at h
    · obtain ⟨rfl, rfl⟩ := Prod.mk.inj (Option.some.inj h)
      rfl
    · rename_i qs j' hread
      have hqs := hr.completes i qs j' (by rw [hread])
      rw [completes_manyFrom n (qs :: found) _ j' ps j h]
      simp [hqs]

instance [Verbatim r] : Verbatim (many r) := ⟨fun i => completes_manyFrom (i.left + 1) [] i.left i⟩

end

/-! ## Gaps, words and marks -/

open Lexis

theorem texts_gapsFrom (html : Bool) : ∀ (n : Nat) (found : Pieces) (i : Input),
    texts (gapsFrom html n found i).1 ++ (gapsFrom html n found i).2.rest =
      texts found.reverse ++ i.rest
  | 0, found, i => rfl
  | n + 1, found, i => by
    unfold gapsFrom
    split
    · extract_lets comment
      have hcomment : ∀ kind t rest, comment = some (kind, t, rest) → t ++ rest = i.rest := by
        intro kind t rest hc
        simp only [comment] at hc
        split at hc
        · rename_i hs
          obtain ⟨rfl, rfl⟩ := Prod.mk.inj (Option.some.inj hc)
          exact Splits.append hs
        · obtain ⟨-, hc⟩ := Option.ite_none_right_eq_some.1 hc
          obtain ⟨_, hs, hx⟩ := Option.map_eq_some_iff.1 hc
          obtain ⟨rfl, rfl⟩ := Prod.mk.inj hx
          exact Splits.append hs
      clear_value comment
      split
      · rename_i kind c t rest
        have hsplit := hcomment _ _ _ rfl
        rw [texts_gapsFrom html n]
        simp [text, Input.skip, ← hsplit]
      · rfl
    · rename_i blank hblank
      have hsplit := List.takeWhile_append_dropWhile (p := isGapChar) (l := i.rest)
      rw [texts_gapsFrom html n]
      simp [text, Input.skip, hsplit]

instance (html : Bool) : Verbatim (gaps html) where
  completes := by
    intro i ps j h
    have hgap := texts_gapsFrom html (i.left + 1) [] i
    rw [show gapsFrom html (i.left + 1) [] i = (ps, j) from Option.some.inj h] at hgap
    exact hgap

/-- Pieces made of a character and a text that are just these. -/
class Spells (make : Char → List Char → Shape) : Prop where
  text : ∀ c t, (make c t).text = c :: t

instance : Spells plain := ⟨fun _ _ => rfl⟩

instance (kind : Kind) : Spells (named kind) := ⟨fun _ _ => rfl⟩

section

variable {split : List Char → Option Split} {make : Char → List Char → Shape}

instance [Splits split] [hm : Spells make] : Verbatim (token split make) where
  completes := by
    intro i ps j h
    have hgap := texts_gapsFrom false (i.left + 1) [] i
    simp only [token] at h
    split at h
    · rename_i c t rest hs
      obtain ⟨rfl, rfl⟩ := Prod.mk.inj (Option.some.inj h)
      have hsplit := Splits.append hs
      simpa [hm.text, Input.skip, ← hsplit] using hgap
    · cases h

instance [Splits split] [hm : Spells make] : Verbatim (adjacent split make) where
  completes := by
    intro i ps j h
    simp only [adjacent] at h
    split at h
    · rename_i c t rest hs
      obtain ⟨rfl, rfl⟩ := Prod.mk.inj (Option.some.inj h)
      simp [hm.text, Input.skip, ← Splits.append hs]
    · cases h

end

instance (m : String) : Verbatim (mark m) := inferInstanceAs (Verbatim (token (markIn [m]) plain))

instance (w : String) : Verbatim (word w) := inferInstanceAs (Verbatim (token (wordIn [w]) plain))

instance (w : String) (k : Kind) : Verbatim (wordAs w k) :=
  inferInstanceAs (Verbatim (token (wordIn [w]) (named k)))

instance (k : Kind) : Verbatim (anyWord k) := inferInstanceAs (Verbatim (token word? (named k)))

instance (value : Bool) : Verbatim (semicolon value) :=
  ⟨.skip fun _ => .ite (fun _ => .pure rfl) fun _ => Verbatim.completes⟩

/-! ## Lists and parentheses -/

instance {item : Reader Pieces} [Verbatim item] : Verbatim (items item) :=
  ⟨.bind fun _ => .bind fun _ => .pure (by simp)⟩

instance {item : Reader Pieces} [Verbatim item] : Verbatim (items1 item) :=
  ⟨.bind fun _ => .bind fun _ => .pure (by simp)⟩

/-- What is changed without a change of its text. -/
theorem verbatim_convert {f : Shape → Option Shape} (hf : ∀ p q, f p = some q → q.text = p.text)
    {r : Reader Pieces} [Verbatim r] : Verbatim (convert f r) where
  completes := by
    refine .bind fun ps => .ofOption fun p hp => .ofOption fun q hq => .pure ?_
    rw [texts_append, texts_cons, texts_nil, List.append_nil, hf p q hq, texts_dropLast hp,
      List.nil_append]

section

variable {self : Answers} [∀ goal, Verbatim (self goal)]

instance (context : Context) : Verbatim (expressions self context) where
  completes := by
    refine .bind fun first => .bind fun more => .pure ?_
    split
    · rename_i hempty
      simp [texts_of_isEmpty hempty]
    · simp

instance : Verbatim (parenthesized self) := by unfold parenthesized; infer_instance

instance : Verbatim (spread self) := by unfold spread; infer_instance

instance : Verbatim (arguments self) := by unfold arguments; infer_instance

/-! ## Literals -/

instance (quote : Char) : Verbatim (quoted quote) :=
  ⟨.bind fun _ => .bind fun _ => .bind fun _ => .pure (by simp)⟩

instance : Verbatim string := by unfold string; infer_instance

instance : Verbatim number := by unfold number; infer_instance

instance : Verbatim regex :=
  ⟨.bind fun _ => .bind fun _ => .bind fun _ => .bind fun _ => .pure (by simp)⟩

instance : Verbatim (template self) :=
  ⟨.bind fun _ => .bind fun _ => .bind fun _ => .pure (by simp)⟩

instance : Verbatim (array self) := by unfold array; infer_instance

instance : Verbatim privateName := by unfold privateName; infer_instance

instance : Verbatim (propertyName self) := by unfold propertyName; infer_instance

/-! ## Blocks and functions -/

theorem completes_statementsFrom : ∀ (n : Nat) (html : Bool) (found : List Pieces) (least : Nat),
    Completes (texts found.reverse.flatten) (statementsFrom self n html found least)
  | 0, html, found, least => by
    rintro i ps j ⟨⟩
    rfl
  | n + 1, html, found, least => by
    intro i ps j h
    simp only [statementsFrom] at h
    split at h
    · have hgap := texts_gapsFrom html (i.left + 1) [] i
      obtain ⟨rfl, rfl⟩ := Prod.mk.inj (Option.some.inj h)
      simpa using hgap
    · rename_i qs j' hread
      have hqs := Verbatim.completes (r := self (.statement html)) i qs j' (by rw [hread])
      rw [completes_statementsFrom n _ (qs :: found) _ j' ps j h]
      simp [hqs]

instance : Verbatim (statements self) :=
  ⟨fun i => completes_statementsFrom (i.left + 1) true [] i.left i⟩

instance : Verbatim (block self) := by unfold block; infer_instance

instance : Verbatim (parameter self) := verbatim_convert fun _ _ => text_toPattern

instance : Verbatim (parameters self) := ⟨.bind fun _ => .bind fun _ => .bind fun _ => .pure (by simp)⟩

instance : Verbatim (signatureAndBody self) := ⟨.bind fun _ => .bind fun _ => .pure (by simp)⟩

instance (plainKind generatorKind : Kind) (needsName : Bool) :
    Verbatim (functionOf self plainKind generatorKind needsName) where
  completes := by
    refine .bind fun lead => .bind fun fn => .bind fun star => .skip fun next => .join fun name => ?_
    exact .bind fun rest => .pure (by simp)

instance : Verbatim (functionValue self) := by unfold functionValue; infer_instance

instance : Verbatim (functionDeclaration self) := by unfold functionDeclaration; infer_instance

/-! ## Members and calls -/

theorem completes_dottedFrom : ∀ (n : Nat) (left : Pieces), Completes (texts left) (dottedFrom n left)
  | 0, left => .pure rfl
  | n + 1, left => by
    refine .skip fun next => .ite (fun _ => .pure rfl) fun _ => .bind fun dot => .bind fun name => ?_
    simpa using completes_dottedFrom n
      (Pieces.wrap .member (Pieces.withRole .object left ++ dot ++ Pieces.withRole .property name))

instance : Verbatim dotted := ⟨.skip fun _ => .bind fun name => completes_dottedFrom _ name⟩

instance : Verbatim (decorator self) where
  completes := by
    refine .bind fun at_ => .bind fun name => .skip fun next => .join fun args => .pure ?_
    split
    · rename_i hempty
      simp [texts_of_isEmpty hempty]
    · simp

instance : Peeks startsName where
  same h := (Prod.mk.inj (Option.some.inj h)).2.symm

instance (inClass : Bool) (w : String) : Verbatim (modifier inClass w) where
  completes := by
    refine .bind fun m => .skip fun ended => ?_
    have rest : Completes (texts m) (do guard (← startsName); return m) :=
      .skip fun _ => .skip fun _ => .pure rfl
    exact .ite (fun _ => .skip fun _ => rest) fun _ => rest

instance : Verbatim staticGet :=
  ⟨.bind fun _ => .bind fun _ => .skip fun _ => .skip fun _ => .pure (by simp)⟩

theorem completes_methodFrom {before : List Char} {lead name : Pieces}
    (h : texts lead ++ texts name = before) : Completes before (methodFrom self lead name) :=
  .bind fun _ => .pure (by simp [← h])

instance (inClass : Bool) : Verbatim (methodLead inClass) := by unfold methodLead; infer_instance

instance : Verbatim (property self) where
  completes := by
    refine .orElse Verbatim.completes ?_
    refine .bind fun decorators => .bind fun static => .bind fun lead => .bind fun name => ?_
    refine .skip fun next => .ite (fun _ => ?_) fun _ => .guarded fun hbefore => ?_
    · exact completes_methodFrom (by simp)
    have hbefore := texts_of_isEmpty hbefore
    simp only [texts_append] at hbefore
    rw [List.nil_append, hbefore, List.nil_append]
    refine .bind fun colon => .ite (fun _ => .bind fun value => .pure (by simp)) fun hcolon => ?_
    have hcolon : texts colon = [] := texts_of_isEmpty (by simpa using hcolon)
    refine .ofOption fun word hword => ?_
    obtain ⟨gap, r, c, t⟩ := word
    -- The name is a word, which is kept with another kind.
    have hname : texts name = texts gap ++ c :: t := by
      split at hword
      · rename_i hlast
        obtain ⟨rfl, rfl, rfl, rfl⟩ := by simpa using hword
        rw [← texts_dropLast hlast]
        rfl
      · cases hword
    rw [hcolon, hname, List.append_nil]
    refine .bind fun equals => .ite (fun hequals => .pure ?_) fun _ => .bind fun value => .pure ?_
    · simp [texts_of_isEmpty hequals, text]
    · simp [text]

instance : Verbatim (object self) := by unfold object; infer_instance

/-! ## Classes -/

theorem completes_field {before : List Char} {lead name : Pieces}
    (h : texts lead ++ texts name = before) : Completes before (field self lead name) :=
  .skip fun _ => .join fun _ => .bind fun _ => .pure (by simp [← h])

instance : Verbatim (staticBlock self) :=
  ⟨.bind fun _ => .skip fun _ => .skip fun _ => .bind fun _ => .pure (by simp)⟩

instance : Verbatim (classMember self) where
  completes := by
    refine .orElse Verbatim.completes (.orElse Verbatim.completes ?_)
    refine .bind fun decorators => .bind fun static => .bind fun lead => .bind fun name => ?_
    refine .skip fun next => .ite (fun _ => ?_) fun _ => .guarded fun hlead => ?_
    · exact (completes_methodFrom (by simp)).andThen fun m => .bind fun ending => .pure (by simp)
    · exact completes_field (by simp [texts_of_isEmpty hlead])

instance (kind : Kind) (needsName : Bool) : Verbatim (classOf self kind needsName) where
  completes := by
    refine .bind fun decorators => .bind fun cls => .skip fun next => .join fun name => ?_
    refine .bind fun heritage => .bind fun opening => .bind fun members => .bind fun closing => ?_
    exact .pure (by simp)

end

end Reader

end ScriptAtlas.Script
