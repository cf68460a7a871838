/-
The call that is being typed. Both answers about it are taken from the last
parenthesis that was opened: the receiver and the method right before it
(`callTarget_eq_some_iff`), and the commas behind it. That parenthesis is the one
of the call as long as its arguments open none. An argument that is itself a call
opens one, and closing it again makes no difference, so that the answers are then
about the inner call (`call_being_typed`).
-/
import ScriptAtlas.Cursor
import ScriptAtlas.Proofs.TextLaws

namespace ScriptAtlas.Cursor

open Text

variable {before inner args receiver method : List Char} {c : Char} {n : Nat}

/-! ## Words -/

/-- Characters of words, at least one of them. -/
def IsWord (w : List Char) : Prop := w ≠ [] ∧ ∀ c ∈ w, isWordChar c = true

/-- The text does not end in a character of a word. -/
def EndsNoWord (s : List Char) : Prop := ∀ c ∈ s.getLast?, isWordChar c = false

instance (w : List Char) : Decidable (IsWord w) :=
  decidable_of_iff (w ≠ [] ∧ w.all isWordChar = true) (and_congr_right' List.all_eq_true)

instance (s : List Char) : Decidable (EndsNoWord s) :=
  decidable_of_iff (s.getLast?.any isWordChar = false) (by cases h : s.getLast? <;> simp [EndsNoWord, h])

/-- The code points of blanks. -/
def blankPoints : List Nat :=
  List.range' 0x9 5 ++ [0x20, 0x85, 0xA0, 0x1680] ++ List.range' 0x2000 11 ++
    [0x2028, 0x2029, 0x202F, 0x205F, 0x3000]

theorem toNat_mem_blankPoints (h : isBlank c = true) : c.toNat ∈ blankPoints := by
  simp only [isBlank, Bool.or_eq_true, Bool.and_eq_true, decide_eq_true_eq, beq_iff_eq] at h
  simp only [blankPoints, List.mem_append, List.mem_range'_1, List.mem_cons, List.not_mem_nil, or_false]
  omega

theorem isWordChar_blankPoints : ∀ n ∈ blankPoints, isWordChar (Char.ofNat n) = false := by
  decide +kernel

/-- No character of a word is blank. -/
theorem isBlank_of_isWordChar (h : isWordChar c = true) : isBlank c = false := by
  refine Bool.eq_false_iff.2 fun hblank => ?_
  have hword := isWordChar_blankPoints _ (toNat_mem_blankPoints hblank)
  rw [Char.ofNat_toNat, h] at hword
  cases hword

/-! ## The last parenthesis -/

theorem bne_of_mem_reverse (h : '(' ∉ inner) : ∀ c ∈ inner.reverse, (c != '(') = true := by
  intro c hc
  have hne : c ≠ '(' := ne_of_mem_of_not_mem (List.mem_reverse.1 hc) h
  simpa using hne

/-- Read backwards, the text stops at the last parenthesis that was opened. -/
theorem back_of_lastOpen (h : '(' ∉ inner) :
    (before ++ '(' :: inner).reverse.takeWhile (· != '(') = inner.reverse ∧
      (before ++ '(' :: inner).reverse.dropWhile (· != '(') = '(' :: before.reverse := by
  have hrun := bne_of_mem_reverse h
  have hstop : ∀ c ∈ ('(' :: before.reverse).head?, (c != '(') = false := stops_at (by decide)
  have hback : (before ++ '(' :: inner).reverse = inner.reverse ++ '(' :: before.reverse := by simp
  rw [hback]
  exact ⟨takeWhile_run hrun hstop, dropWhile_run hrun hstop⟩

theorem splitLastOpen_append (h : '(' ∉ inner) :
    splitLastOpen (before ++ '(' :: inner) = some (before.reverse, inner) := by
  simp only [splitLastOpen, (back_of_lastOpen h).1, (back_of_lastOpen h).2, List.reverse_reverse]

/-- A text that has the character has a last one of it. -/
theorem exists_last_of_mem (h : c ∈ args) : ∃ a b, args = a ++ c :: b ∧ c ∉ b := by
  obtain ⟨b, a, hsplit, hb⟩ := List.eq_append_cons_of_mem (List.mem_reverse.2 h)
  refine ⟨a.reverse, b.reverse, ?_, by simpa using hb⟩
  simpa using congrArg List.reverse hsplit

/-- The text ends in the receiver, a dot and the method, but for blanks, and the receiver is all of
the word before the dot. -/
def EndsInMember (receiver method before : List Char) : Prop :=
  ∃ front blanks, before = front ++ receiver ++ '.' :: method ++ blanks ∧ EndsNoWord front ∧
    IsWord receiver ∧ IsWord method ∧ ∀ c ∈ blanks, isBlank c = true

/-- Read backwards, such a text is blanks, the method, a dot and the receiver. -/
theorem EndsInMember.back (h : EndsInMember receiver method before) : ∃ front,
    before.reverse.dropWhile isBlank = method.reverse ++ '.' :: (receiver.reverse ++ front) ∧
      ∀ c ∈ front.head?, isWordChar c = false := by
  obtain ⟨front, blanks, rfl, hfront, -, hmethod, hblanks⟩ := h
  refine ⟨front.reverse, ?_, by simpa [EndsNoWord] using hfront⟩
  have hback : (front ++ receiver ++ '.' :: method ++ blanks).reverse =
      blanks.reverse ++ (method.reverse ++ '.' :: (receiver.reverse ++ front.reverse)) := by simp
  rw [hback]
  refine dropWhile_run (by simpa using hblanks) fun c hc => ?_
  rcases mem_of_mem_head?_append_cons hc with hc | rfl
  · exact isBlank_of_isWordChar (hmethod.2 c (List.mem_reverse.1 hc))
  · rfl

/-- **The target of a call** is what stands before the last parenthesis that was opened. -/
theorem callTarget_eq_some_iff (h : '(' ∉ inner) :
    callTarget (String.ofList (before ++ '(' :: inner)) =
        some (String.ofList receiver, String.ofList method) ↔
      EndsInMember receiver method before := by
  simp only [callTarget, String.toList_ofList, splitLastOpen_append h, Option.bind_eq_bind,
    Option.bind_some]
  constructor
  · intro htarget
    split at htarget
    case h_2 => cases htarget
    case h_1 rest hrest =>
      obtain ⟨hwords, htarget⟩ := Option.ite_none_left_eq_some.1 htarget
      simp only [Option.some.injEq, Prod.mk.injEq, String.ofList_inj] at htarget
      obtain ⟨rfl, rfl⟩ := htarget
      simp only [Bool.or_eq_true, List.isEmpty_iff, not_or] at hwords
      have hback : before.reverse = before.reverse.takeWhile isBlank ++
          ((before.reverse.dropWhile isBlank).takeWhile isWordChar ++
            '.' :: (rest.takeWhile isWordChar ++ rest.dropWhile isWordChar)) := by
        rw [List.takeWhile_append_dropWhile, ← hrest, List.takeWhile_append_dropWhile,
          List.takeWhile_append_dropWhile]
      refine ⟨(rest.dropWhile isWordChar).reverse, (before.reverse.takeWhile isBlank).reverse, ?_, ?_,
        ⟨by simpa using hwords.2, ?_⟩, ⟨by simpa using hwords.1, ?_⟩, ?_⟩
      · simpa only [List.reverse_reverse, List.reverse_append, List.reverse_cons, List.append_assoc,
          List.cons_append, List.nil_append] using congrArg List.reverse hback
      · intro c hc
        rw [List.getLast?_reverse] at hc
        exact head?_dropWhile rest c hc
      all_goals exact fun c hc => List.mem_takeWhile_imp (List.mem_reverse.1 hc)
  · intro hends
    obtain ⟨front, hback, hfront⟩ := hends.back
    obtain ⟨-, -, -, -, hreceiver, hmethod, -⟩ := hends
    have hword (w : List Char) (hw : IsWord w) : ∀ c ∈ w.reverse, isWordChar c = true :=
      fun c hc => hw.2 c (List.mem_reverse.1 hc)
    have hdot (rest : List Char) : ∀ c ∈ ('.' :: rest).head?, isWordChar c = false :=
      stops_at (by decide)
    rw [hback, dropWhile_run (hword _ hmethod) (hdot _), takeWhile_run (hword _ hmethod) (hdot _)]
    simp only
    rw [takeWhile_run (hword _ hreceiver) hfront]
    simp [hreceiver.1, hmethod.1]

/-- **The parameter being typed** is counted by the commas behind the last parenthesis that was
opened. -/
theorem activeParameter_eq (h : '(' ∉ inner) (f : Function) :
    activeParameter (String.ofList (before ++ '(' :: inner)) f =
      min (inner.count ',') (f.params.length - 1) := by
  simp only [activeParameter, String.toList_ofList, splitLastOpen_append h]

/-! ## Arguments -/

/-- Text in which parentheses are balanced, with that many commas outside of them. -/
inductive Arguments : Nat → List Char → Prop
  | nil : Arguments 0 []
  | comma {n : Nat} {s : List Char} (h : Arguments n s) : Arguments (n + 1) (',' :: s)
  | plain {n : Nat} {s : List Char} (c : Char) (hc : c ∉ ['(', ')', ',']) (h : Arguments n s) :
      Arguments n (c :: s)
  | group {n k : Nat} {s t : List Char} (hs : Arguments k s) (ht : Arguments n t) :
      Arguments n ('(' :: s ++ ')' :: t)

/-- Where no parenthesis is opened, all commas are outside of parentheses. -/
theorem Arguments.count_of_not_mem (h : Arguments n args) (hopen : '(' ∉ args) :
    args.count ',' = n := by
  induction h with
  | nil => rfl
  | comma h ih => rw [List.count_cons_self, ih (List.not_mem_of_not_mem_cons hopen)]
  | plain c hc h ih =>
    have hne : c ≠ ',' := by
      rintro rfl
      simp at hc
    rw [List.count_cons_of_ne hne, ih (List.not_mem_of_not_mem_cons hopen)]
  | group hs ht _ _ => simp at hopen

/-- What stands behind the last parenthesis that was opened, or all of the text if there is none. -/
def sinceLastOpen (s : List Char) : List Char := (s.reverse.takeWhile (· != '(')).reverse

theorem sinceLastOpen_of_not_mem (h : '(' ∉ args) : sinceLastOpen args = args := by
  have hrun : args.reverse.takeWhile (· != '(') = args.reverse :=
    List.takeWhile_eq_self_iff.2 (bne_of_mem_reverse h)
  rw [sinceLastOpen, hrun, List.reverse_reverse]

theorem sinceLastOpen_append (h : '(' ∉ inner) : sinceLastOpen (before ++ '(' :: inner) = inner := by
  rw [sinceLastOpen, (back_of_lastOpen h).1, List.reverse_reverse]

/-- **What is told about the call that is being typed.** Its receiver and method are found as long as its
arguments open no parenthesis, and otherwise exactly if what stands before the last parenthesis they
open is that receiver and method again. The parameter is counted by the commas behind the last
parenthesis, which are those outside of parentheses as long as the arguments open none. -/
theorem call_being_typed (front receiver method args : List Char) (n : Nat)
    (hfront : EndsNoWord front) (hreceiver : IsWord receiver) (hmethod : IsWord method)
    (hargs : Arguments n args) (f : Function) :
    let called := front ++ receiver ++ '.' :: method
    let text := String.ofList (called ++ '(' :: args)
    (callTarget text = some (String.ofList receiver, String.ofList method) ↔
      '(' ∉ args ∨ ∃ before inner, args = before ++ '(' :: inner ∧ '(' ∉ inner ∧
        EndsInMember receiver method (called ++ '(' :: before)) ∧
    activeParameter text f = min ((sinceLastOpen args).count ',') (f.params.length - 1) ∧
    ('(' ∉ args → (sinceLastOpen args).count ',' = n) := by
  intro called text
  refine ⟨?_, ?_, fun hopen => by rw [sinceLastOpen_of_not_mem hopen, hargs.count_of_not_mem hopen]⟩
  · by_cases hopen : '(' ∈ args
    · -- The last parenthesis is one of the arguments, wherever they are split at it.
      have split {before inner : List Char} (hsplit : args = before ++ '(' :: inner)
          (hinner : '(' ∉ inner) :
          callTarget text = some (String.ofList receiver, String.ofList method) ↔
            EndsInMember receiver method (called ++ '(' :: before) := by
        rw [← callTarget_eq_some_iff hinner]
        simp [text, hsplit]
      constructor
      · intro hfound
        obtain ⟨before, inner, hsplit, hinner⟩ := exists_last_of_mem hopen
        exact .inr ⟨before, inner, hsplit, hinner, (split hsplit hinner).1 hfound⟩
      · rintro (hnone | ⟨before, inner, hsplit, hinner, hends⟩)
        · exact absurd hopen hnone
        · exact (split hsplit hinner).2 hends
    · refine iff_of_true ((callTarget_eq_some_iff hopen).2 ?_) (.inl hopen)
      exact ⟨front, [], by simp [called], hfront, hreceiver, hmethod, List.forall_mem_nil _⟩
  · by_cases hopen : '(' ∈ args
    · obtain ⟨before, inner, rfl, hinner⟩ := exists_last_of_mem hopen
      have htext : called ++ '(' :: (before ++ '(' :: inner) =
          (called ++ '(' :: before) ++ '(' :: inner := by simp
      rw [sinceLastOpen_append hinner, ← activeParameter_eq hinner f, ← htext]
    · rw [sinceLastOpen_of_not_mem hopen, ← activeParameter_eq hopen f]

/-- A function with three parameters. -/
def threeParams : Function where
  name := "find"
  params := ["table", "filter", "limit"].map (Param.undocumented · false)
  returns := .void
  description := ""
  location := none

theorem plainArguments_call_found :
    EndsNoWord "var r = ".toList ∧ IsWord "db".toList ∧ IsWord "find".toList ∧
      Arguments 1 "a, b".toList ∧
      callTarget "var r = db.find(a, b" = some ("db", "find") ∧
      activeParameter "var r = db.find(a, b" threeParams = 1 := by
  have hfront : EndsNoWord "var r = ".toList := by decide
  have hreceiver : IsWord "db".toList := by decide
  have hmethod : IsWord "find".toList := by decide
  have hargs : Arguments 1 "a, b".toList :=
    .plain 'a' (by decide) (.comma (.plain ' ' (by decide) (.plain 'b' (by decide) .nil)))
  obtain ⟨htarget, hactive, -⟩ :=
    call_being_typed _ _ _ _ 1 hfront hreceiver hmethod hargs threeParams
  exact ⟨hfront, hreceiver, hmethod, hargs, htarget.2 (.inl (by decide)), hactive⟩

/-- A call among the arguments hides the call that is being typed, though it is complete: no target is
found, and the comma between its own arguments counts as well. -/
theorem completedCall_hides_call :
    Arguments 1 "g(1, 2), ".toList ∧
      callTarget "db.find(g(1, 2), " = none ∧
      activeParameter "db.find(g(1, 2), " threeParams = 2 := by
  refine ⟨?_, by decide, by decide⟩
  have hinner : Arguments 1 "1, 2".toList :=
    .plain '1' (by decide) (.comma (.plain ' ' (by decide) (.plain '2' (by decide) .nil)))
  exact .plain 'g' (by decide) (.group hinner (.comma (.plain ' ' (by decide) .nil)))

end ScriptAtlas.Cursor
