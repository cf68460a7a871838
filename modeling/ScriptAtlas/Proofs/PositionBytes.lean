/-
Positions of bytes, and bytes of positions. The position of a byte is reached from
the start of the text in one step for each character before the byte
(`at?_eq_some_iff`), and each step leads further right or to a later line. So the
positions are ordered as the bytes are. The way back goes by lines: behind the
lines before a position, each with its line feed, and on its line behind the
characters that have the units before it (`byte?`).

Both counts of a position are words of 32 bits. Neither is larger than the number
of bytes before the position, so in a text of less than 2 ^ 32 bytes none of them
comes back to 0.
-/
import ScriptAtlas.Proofs.CursorChains
import ScriptAtlas.Text.Position

namespace ScriptAtlas.Position

open Cursor Text

variable {p q r : Position} {c : Char} {s text front line : List Char} {ls : List (List Char)} {b n : Nat}

/-! ## Steps -/

/-- The position is on an earlier line, or further left on the same one. -/
def Before (p q : Position) : Prop := p.line < q.line ∨ p.line = q.line ∧ p.character < q.character

theorem Before.trans (hpq : p.Before q) (hqr : q.Before r) : p.Before r := by
  unfold Before at *
  simp only [UInt32.lt_iff_toNat_lt, ← UInt32.toNat_inj] at *
  omega

theorem Before.irrefl (p : Position) : ¬ p.Before p := by
  rintro (hline | ⟨-, hcharacter⟩)
  · exact UInt32.lt_irrefl _ hline
  · exact UInt32.lt_irrefl _ hcharacter

theorem units_pos (c : Char) : 0 < (units c).toNat := by
  unfold units
  split <;> decide

/-- A character has no more units than bytes. -/
theorem units_le_utf8Size (c : Char) : (units c).toNat ≤ c.utf8Size := by
  unfold units
  split
  · exact c.utf8Size_pos
  · rename_i hlarge
    have hsize : c.utf8Size = 4 :=
      Char.utf8Size_eq_four_iff.2 (UInt32.lt_iff_toNat_lt.2 (Nat.not_lt.1 hlarge))
    rw [hsize]
    decide

theorem step_lineFeed (p : Position) : p.step '\n' = ⟨p.line + 1, 0⟩ := rfl

theorem step_of_ne (p : Position) (hc : c ≠ '\n') : p.step c = ⟨p.line, p.character + units c⟩ :=
  if_neg hc

/-- Neither count is larger than `n`. -/
structure AtMost (n : Nat) (p : Position) : Prop where
  line : p.line.toNat ≤ n
  character : p.character.toNat ≤ n

/-- **A step** adds no more to the counts than the character has bytes, and leads to a later position
as long as the counts are words. -/
theorem AtMost.step (h : p.AtMost n) (hn : n + c.utf8Size < 2 ^ 32) :
    (p.step c).AtMost (n + c.utf8Size) ∧ p.Before (p.step c) := by
  obtain ⟨hline, hcharacter⟩ := h
  have hpos := c.utf8Size_pos
  by_cases hc : c = '\n'
  · subst hc
    have hnext : (p.line + 1).toNat = p.line.toNat + 1 := by
      rw [UInt32.toNat_add, UInt32.toNat_one, Nat.mod_eq_of_lt (by omega)]
    rw [step_lineFeed]
    refine ⟨⟨?_, Nat.zero_le _⟩, .inl (UInt32.lt_iff_toNat_lt.2 ?_)⟩ <;> rw [hnext] <;> omega
  · have hunits := units_le_utf8Size c
    have hsome := units_pos c
    have hnext : (p.character + units c).toNat = p.character.toNat + (units c).toNat := by
      rw [UInt32.toNat_add, Nat.mod_eq_of_lt (by omega)]
    rw [step_of_ne p hc]
    refine ⟨⟨by simpa using hline.trans (Nat.le_add_right _ _), ?_⟩,
      .inr ⟨rfl, UInt32.lt_iff_toNat_lt.2 ?_⟩⟩ <;> rw [hnext] <;> omega

/-- The position after some text. -/
def after (p : Position) (s : List Char) : Position := s.foldl step p

theorem after_append (p : Position) (s t : List Char) : p.after (s ++ t) = (p.after s).after t :=
  List.foldl_append

theorem AtMost.after (h : p.AtMost n) (hn : n + String.utf8Len s < 2 ^ 32) :
    (p.after s).AtMost (n + String.utf8Len s) := by
  induction s generalizing p n with
  | nil => exact h
  | cons c s ih =>
    rw [String.utf8Len_cons] at hn ⊢
    have hrest := ih (h.step (c := c) (by omega)).1 (by omega)
    rwa [Nat.add_assoc, Nat.add_comm c.utf8Size] at hrest

/-- **A run** over some text leads to a later position. -/
theorem AtMost.before_after (h : p.AtMost n) (hn : n + String.utf8Len (c :: s) < 2 ^ 32) :
    p.Before (p.after (c :: s)) := by
  induction s generalizing p n c with
  | nil =>
    rw [String.utf8Len_cons, String.utf8Len_nil, Nat.zero_add] at hn
    exact (h.step hn).2
  | cons d s ih =>
    simp only [String.utf8Len_cons] at hn ih
    have hstep := h.step (c := c) (by omega)
    exact hstep.2.trans (ih hstep.1 (by omega))

/-! ## Bytes with a position -/

/-- Positions and the text before a byte are scanned for alike. -/
theorem advance_eq (p : Position) (acc : List Char) :
    advance (p.after acc.reverse) b text =
      (beforeFrom acc b text).map fun back => p.after back.reverse := by
  induction text generalizing b acc with
  | nil => cases b <;> rfl
  | cons c text ih =>
    cases b with
    | zero => rfl
    | succ n =>
      have hstep : (p.after acc.reverse).step c = p.after (c :: acc).reverse := by
        rw [List.reverse_cons, after_append]
        rfl
      rw [advance, beforeFrom, hstep]
      split
      · exact ih (c :: acc)
      · rfl

/-- **The position of a byte** is the one after the text before the byte. -/
theorem at?_eq_some_iff :
    at? text b = some p ↔ ∃ before, IsBefore text b before ∧ p = after {} before := by
  have hscan : at? text b = (beforeFrom [] b text).map fun back => after {} back.reverse :=
    advance_eq {} []
  rw [hscan, Option.map_eq_some_iff]
  constructor
  · rintro ⟨back, hback, rfl⟩
    obtain ⟨before, hbefore, rfl⟩ := (beforeFrom_eq_some_iff []).1 hback
    exact ⟨before, hbefore, by simp⟩
  · rintro ⟨before, hbefore, rfl⟩
    exact ⟨_, (beforeFrom_eq_some_iff []).2 ⟨before, hbefore, rfl⟩, by simp⟩

theorem at?_eq_none_iff : at? text b = none ↔ Inside text b := by
  constructor
  · intro hnone
    rcases isBefore_or_inside text b with ⟨before, hbefore⟩ | hinside
    · rw [at?_eq_some_iff.2 ⟨before, hbefore, rfl⟩] at hnone
      cases hnone
    · exact hinside
  · intro hinside
    refine Option.eq_none_iff_forall_not_mem.2 fun p hp => ?_
    obtain ⟨before, hbefore, -⟩ := at?_eq_some_iff.1 hp
    exact hinside.not_isBefore hbefore

/-- All of the text is before a byte behind its end. -/
theorem at?_of_size_le (h : String.utf8Len text ≤ b) : at? text b = some (after {} text) :=
  at?_eq_some_iff.2 ⟨text, ⟨List.prefix_refl text, (Nat.min_eq_right h).symm⟩, rfl⟩

/-- A character starts at the byte, or the text ends there. -/
def IsBoundary (text : List Char) (b : Nat) : Prop := ∃ front, front <+: text ∧ String.utf8Len front = b

theorem at?_of_prefix (h : front <+: text) : at? text (String.utf8Len front) = some (after {} front) :=
  at?_eq_some_iff.2 ⟨front, ⟨h, (Nat.min_eq_left (String.utf8Len_le_of_prefix h)).symm⟩, rfl⟩

/-- **Later bytes have later positions.** -/
theorem before_of_lt {front' : List Char} (hsize : String.utf8Len text < 2 ^ 32) (h : front <+: text)
    (h' : front' <+: text) (hlt : String.utf8Len front < String.utf8Len front') :
    (after {} front).Before (after {} front') := by
  obtain ⟨more, rfl⟩ := prefix_of_utf8Len_le h h' hlt.le
  have hle := String.utf8Len_le_of_prefix h'
  rw [String.utf8Len_append] at hlt hle
  cases more with
  | nil => exact absurd hlt (Nat.lt_irrefl _)
  | cons c more =>
    have hmost : (after {} front).AtMost (0 + String.utf8Len front) :=
      AtMost.after ⟨Nat.le_refl _, Nat.le_refl _⟩ (by omega)
    rw [after_append]
    exact hmost.before_after (by omega)

/-! ## Lines -/

/-- The lines with a line feed behind each. -/
def closed (ls : List (List Char)) : List Char := ls.flatMap (· ++ ['\n'])

/-- The number of units of a text. -/
def unitCount : List Char → Nat
  | [] => 0
  | c :: s => (units c).toNat + unitCount s

/-- The byte at which a line starts. -/
def lineStart (text : List Char) (n : Nat) : Nat :=
  String.utf8Len (closed ((splitAtChar '\n' text).take n))

/-- The start of a text that has so many units, if there is one. -/
def takeUnits? : Nat → List Char → Option (List Char)
  | 0, _ => some []
  | _ + 1, [] => none
  | n + 1, c :: s =>
    if (units c).toNat ≤ n + 1 then (takeUnits? (n + 1 - (units c).toNat) s).map (c :: ·) else none

/-- The byte of a position: where its line starts, and on from there behind the characters that have the
units before it. -/
def byte? (text : List Char) (p : Position) : Option Nat := do
  let line ← (splitAtChar '\n' text)[p.line.toNat]?
  let front ← takeUnits? p.character.toNat line
  return lineStart text p.line.toNat + String.utf8Len front

theorem unitCount_eq_zero : unitCount s = 0 ↔ s = [] := by
  cases s with
  | nil => exact ⟨fun _ => rfl, fun _ => rfl⟩
  | cons c s =>
    have hpos := units_pos c
    simp only [unitCount, reduceCtorEq, iff_false]
    omega

theorem takeUnits?_zero : takeUnits? 0 s = some front ↔ front <+: s ∧ unitCount front = 0 := by
  rw [takeUnits?, Option.some.injEq, unitCount_eq_zero]
  exact ⟨fun h => ⟨h ▸ List.nil_prefix, h.symm⟩, fun h => h.2.symm⟩

theorem takeUnits?_eq_some_iff : takeUnits? n s = some front ↔ front <+: s ∧ unitCount front = n := by
  induction s generalizing n front with
  | nil =>
    cases n with
    | zero => exact takeUnits?_zero
    | succ n =>
      simp only [takeUnits?, reduceCtorEq, List.prefix_nil, false_iff, not_and]
      rintro rfl hcount
      cases hcount
  | cons c s ih =>
    cases n with
    | zero => exact takeUnits?_zero
    | succ n =>
      rw [takeUnits?, List.prefix_cons_iff]
      constructor
      · intro h
        split at h
        · obtain ⟨rest, hrest, rfl⟩ := Option.map_eq_some_iff.1 h
          obtain ⟨hlead, hcount⟩ := ih.1 hrest
          exact ⟨.inr ⟨rest, rfl, hlead⟩, by rw [unitCount]; omega⟩
        · cases h
      · rintro ⟨rfl | ⟨rest, rfl, hlead⟩, hcount⟩
        · cases hcount
        · rw [unitCount] at hcount
          rw [if_pos (by omega), ih.2 ⟨hlead, by omega⟩]
          rfl

theorem byte?_eq_some_iff : byte? text p = some b ↔
    ∃ line front, (splitAtChar '\n' text)[p.line.toNat]? = some line ∧ front <+: line ∧
      unitCount front = p.character.toNat ∧ lineStart text p.line.toNat + String.utf8Len front = b := by
  simp only [byte?, Option.bind_eq_bind, Option.bind_eq_some_iff, takeUnits?_eq_some_iff, Option.pure_def,
    Option.some.injEq, and_assoc, exists_and_left]

theorem closed_cons (l : List Char) (ls : List (List Char)) :
    closed (l :: ls) = l ++ '\n' :: closed ls := by
  simp [closed]

theorem joinWith_append_cons (ls ms : List (List Char)) (l : List Char) :
    joinWith ['\n'] (ls ++ l :: ms) = closed ls ++ joinWith ['\n'] (l :: ms) := by
  induction ls with
  | nil => rfl
  | cons k ls ih =>
    rw [List.cons_append, joinWith_cons _ _ (by simp), ih, closed_cons]
    simp

theorem splitAtChar_closed (hls : ∀ l ∈ ls, '\n' ∉ l) (s : List Char) :
    splitAtChar '\n' (closed ls ++ s) = ls ++ splitAtChar '\n' s := by
  induction ls with
  | nil => rfl
  | cons l ls ih =>
    obtain ⟨hl, hls⟩ := List.forall_mem_cons.1 hls
    rw [closed_cons, List.append_assoc, List.cons_append, splitAtChar_append, splitAtChar_of_not_mem hl,
      ih hls]
    rfl

/-- Every text is some lines with their line feeds and the start of another line. -/
theorem exists_closed (s : List Char) :
    ∃ ls front, s = closed ls ++ front ∧ (∀ l ∈ ls, '\n' ∉ l) ∧ '\n' ∉ front := by
  have hne := splitAtChar_ne_nil '\n' s
  refine ⟨(splitAtChar '\n' s).dropLast, (splitAtChar '\n' s).getLast hne, ?_,
    fun l hl => not_mem_of_mem_splitAtChar (List.dropLast_subset _ hl),
    not_mem_of_mem_splitAtChar (List.getLast_mem hne)⟩
  rw [← joinWith_singleton ['\n'] ((splitAtChar '\n' s).getLast hne), ← joinWith_append_cons,
    List.dropLast_append_getLast hne, joinWith_splitAtChar]

/-- A start of a text without line feeds is a start of its first line. -/
theorem exists_first_line (hfront : '\n' ∉ front) (s : List Char) :
    ∃ line more, splitAtChar '\n' (front ++ s) = line :: more ∧ front <+: line := by
  induction front with
  | nil =>
    obtain ⟨line, more, hlines⟩ := List.exists_cons_of_ne_nil (splitAtChar_ne_nil '\n' s)
    exact ⟨line, more, hlines, List.nil_prefix⟩
  | cons c front ih =>
    simp only [List.mem_cons, not_or] at hfront
    obtain ⟨line, more, hlines, hlead⟩ := ih hfront.2
    refine ⟨c :: line, more, ?_, List.cons_prefix_cons.2 ⟨rfl, hlead⟩⟩
    rw [List.cons_append, splitAtChar, if_neg (Ne.symm hfront.1), hlines]

/-- The lines of a start of the text are lines of the text, and it ends on the next line. -/
theorem lines_of_prefix (h : closed ls ++ front <+: text) (hls : ∀ l ∈ ls, '\n' ∉ l)
    (hfront : '\n' ∉ front) : (splitAtChar '\n' text).take ls.length = ls ∧
      ∃ line, (splitAtChar '\n' text)[ls.length]? = some line ∧ front <+: line := by
  obtain ⟨rest, rfl⟩ := h
  obtain ⟨line, more, hlines, hlead⟩ := exists_first_line hfront rest
  rw [List.append_assoc, splitAtChar_closed hls, hlines]
  exact ⟨by simp, line, by simp, hlead⟩

/-- The lines before a line, with their line feeds, and a start of that line are a start of the text. -/
theorem prefix_of_lines (hline : (splitAtChar '\n' text)[n]? = some line) (hlead : front <+: line) :
    closed ((splitAtChar '\n' text).take n) ++ front <+: text := by
  obtain ⟨hlt, hget⟩ := List.getElem?_eq_some_iff.1 hline
  have hfirst : ∀ more, line <+: joinWith ['\n'] (line :: more) := by
    intro more
    by_cases hmore : more = []
    · simp [hmore]
    · rw [joinWith_cons _ _ hmore, List.append_assoc]
      exact List.prefix_append _ _
  conv_rhs => rw [← joinWith_splitAtChar '\n' text, ← List.take_append_drop n (splitAtChar '\n' text),
    List.drop_eq_getElem_cons hlt, hget, joinWith_append_cons]
  exact (List.prefix_append_right_inj _).2 (hlead.trans (hfirst _))

/-! ## Counts -/

theorem unitCount_le (s : List Char) : unitCount s ≤ String.utf8Len s := by
  induction s with
  | nil => exact Nat.le_refl _
  | cons c s ih =>
    have hc := units_le_utf8Size c
    rw [unitCount, String.utf8Len_cons]
    omega

theorem length_le_closed (ls : List (List Char)) : ls.length ≤ String.utf8Len (closed ls) := by
  induction ls with
  | nil => exact Nat.le_refl _
  | cons l ls ih =>
    have hfeed : '\n'.utf8Size = 1 := rfl
    rw [closed_cons, String.utf8Len_append, String.utf8Len_cons, hfeed, List.length_cons]
    omega

theorem after_of_not_mem (h : '\n' ∉ s) (p : Position) :
    p.after s = ⟨p.line, p.character + UInt32.ofNat (unitCount s)⟩ := by
  induction s generalizing p with
  | nil => simp [after, unitCount]
  | cons c s ih =>
    simp only [List.mem_cons, not_or] at h
    rw [show p.after (c :: s) = (p.step c).after s from rfl, ih h.2, step_of_ne p (Ne.symm h.1), unitCount,
      UInt32.ofNat_add, UInt32.ofNat_toNat, UInt32.add_assoc]

theorem after_closed (hls : ∀ l ∈ ls, '\n' ∉ l) (n : UInt32) :
    after ⟨n, 0⟩ (closed ls) = ⟨n + UInt32.ofNat ls.length, 0⟩ := by
  induction ls generalizing n with
  | nil => simp [after, closed]
  | cons l ls ih =>
    obtain ⟨hl, hls⟩ := List.forall_mem_cons.1 hls
    have hfeed : ∀ p : Position, p.after ('\n' :: closed ls) = after ⟨p.line + 1, 0⟩ (closed ls) :=
      fun _ => rfl
    rw [closed_cons, after_append, hfeed, after_of_not_mem hl, ih hls, List.length_cons, Nat.add_comm,
      UInt32.ofNat_add, ← UInt32.add_assoc]
    rfl

/-- **The position after some text** counts its lines, and the units behind the last of them. -/
theorem after_closed_append (hls : ∀ l ∈ ls, '\n' ∉ l) (hfront : '\n' ∉ front) :
    after {} (closed ls ++ front) = ⟨UInt32.ofNat ls.length, UInt32.ofNat (unitCount front)⟩ := by
  rw [after_append, after_closed hls 0, after_of_not_mem hfront, UInt32.zero_add, UInt32.zero_add]

/-- **The way back:** a byte at which a character starts is that of its position. -/
theorem at?_eq_some_iff_byte? (hsize : String.utf8Len text < 2 ^ 32) (hb : b ≤ String.utf8Len text) :
    at? text b = some p ↔ byte? text p = some b := by
  rw [byte?_eq_some_iff]
  constructor
  · intro hp
    obtain ⟨before, hbefore, rfl⟩ := at?_eq_some_iff.1 hp
    have hbyte := hbefore.size
    rw [Nat.min_eq_left hb] at hbyte
    obtain ⟨ls, front, rfl, hls, hfront⟩ := exists_closed before
    obtain ⟨htake, line, hline, hlead⟩ := lines_of_prefix hbefore.leads hls hfront
    -- neither count is larger than the byte, so both are read back from their words
    have hlines := length_le_closed ls
    have hunits := unitCount_le front
    rw [String.utf8Len_append] at hbyte
    rw [after_closed_append hls hfront, lineStart, UInt32.toNat_ofNat', UInt32.toNat_ofNat',
      Nat.mod_eq_of_lt (show ls.length < 2 ^ 32 by omega),
      Nat.mod_eq_of_lt (show unitCount front < 2 ^ 32 by omega), htake]
    exact ⟨line, front, hline, hlead, rfl, hbyte⟩
  · rintro ⟨line, front, hline, hlead, hunits, hbyte⟩
    have hleads := prefix_of_lines hline hlead
    have hlength : ((splitAtChar '\n' text).take p.line.toNat).length = p.line.toNat :=
      List.length_take_of_le (List.getElem?_eq_some_iff.1 hline).1.le
    have hfree : '\n' ∉ line := not_mem_of_mem_splitAtChar (List.mem_of_getElem? hline)
    have hat := at?_of_prefix hleads
    have hls : ∀ l ∈ (splitAtChar '\n' text).take p.line.toNat, '\n' ∉ l := fun l hl =>
      not_mem_of_mem_splitAtChar (List.mem_of_mem_take hl)
    rw [String.utf8Len_append, ← lineStart, hbyte,
      after_closed_append hls fun hmem => hfree (hlead.subset hmem), hlength, hunits, UInt32.ofNat_toNat,
      UInt32.ofNat_toNat] at hat
    exact hat

/-! ## Positions and bytes -/

/-- **Positions follow the bytes.** A byte has no position exactly if it is inside of a character, and
from the end of the text on all bytes have the same. Of two bytes at which characters start or the text
ends, the later one has the later position, so that no two have the same; and the byte is found again
from its position. -/
theorem positions_follow_bytes (text : List Char) (hsize : String.utf8Len text < 2 ^ 32) :
    (∀ b, at? text b = none ↔ b < String.utf8Len text ∧ Inside text b) ∧
    (∀ b, String.utf8Len text ≤ b → at? text b = at? text (String.utf8Len text)) ∧
    (∀ b₁ b₂, IsBoundary text b₁ → IsBoundary text b₂ → b₁ < b₂ →
      ∃ p₁ p₂, at? text b₁ = some p₁ ∧ at? text b₂ = some p₂ ∧ p₁.Before p₂) ∧
    (∀ b₁ b₂, IsBoundary text b₁ → IsBoundary text b₂ → at? text b₁ = at? text b₂ → b₁ = b₂) ∧
    ∀ b p, IsBoundary text b → (at? text b = some p ↔ byte? text p = some b) := by
  have hrises : ∀ b₁ b₂, IsBoundary text b₁ → IsBoundary text b₂ → b₁ < b₂ →
      ∃ p₁ p₂, at? text b₁ = some p₁ ∧ at? text b₂ = some p₂ ∧ p₁.Before p₂ := by
    rintro _ _ ⟨front₁, h₁, rfl⟩ ⟨front₂, h₂, rfl⟩ hlt
    exact ⟨_, _, at?_of_prefix h₁, at?_of_prefix h₂, before_of_lt hsize h₁ h₂ hlt⟩
  have hdiffer : ∀ b₁ b₂, IsBoundary text b₁ → IsBoundary text b₂ → b₁ < b₂ →
      at? text b₁ ≠ at? text b₂ := by
    intro b₁ b₂ h₁ h₂ hlt hsame
    obtain ⟨p₁, p₂, hp₁, hp₂, hbefore⟩ := hrises b₁ b₂ h₁ h₂ hlt
    obtain rfl : p₁ = p₂ := Option.some.inj (hp₁.symm.trans (hsame.trans hp₂))
    exact Before.irrefl p₁ hbefore
  refine ⟨fun b => ?_, fun b hb => ?_, hrises, fun b₁ b₂ h₁ h₂ hsame => ?_, ?_⟩
  · rw [at?_eq_none_iff]
    exact ⟨fun h => ⟨h.lt_size, h⟩, And.right⟩
  · rw [at?_of_size_le hb, at?_of_size_le (Nat.le_refl _)]
  · rcases Nat.lt_trichotomy b₁ b₂ with hlt | heq | hlt
    · exact absurd hsame (hdiffer b₁ b₂ h₁ h₂ hlt)
    · exact heq
    · exact absurd hsame.symm (hdiffer b₂ b₁ h₂ h₁ hlt)
  · rintro _ p ⟨front, hfront, rfl⟩
    exact at?_eq_some_iff_byte? hsize (String.utf8Len_le_of_prefix hfront)

/-- A text with characters of one, two and four bytes on its second line. -/
def mixedText : List Char := ['a', '\n', 'x', 'é', '😀', 'y']

theorem mixedText_positions :
    (String.utf8Len mixedText < 2 ^ 32 ∧ IsBoundary mixedText 5 ∧ IsBoundary mixedText 9) ∧
      at? mixedText 6 = none ∧ at? mixedText 99 = at? mixedText 10 ∧
      (∃ p₁ p₂, at? mixedText 5 = some p₁ ∧ at? mixedText 9 = some p₂ ∧ p₁.Before p₂) ∧
      at? mixedText 5 ≠ at? mixedText 9 ∧ byte? mixedText ⟨1, 4⟩ = some 9 := by
  have hsize : String.utf8Len mixedText < 2 ^ 32 := by decide
  have hfive : IsBoundary mixedText 5 := ⟨['a', '\n', 'x', 'é'], by decide, by decide⟩
  have hnine : IsBoundary mixedText 9 := ⟨['a', '\n', 'x', 'é', '😀'], by decide, by decide⟩
  have hinside : Inside mixedText 6 := ⟨['a', '\n', 'x', 'é'], '😀', ['y'], rfl, by decide, by decide⟩
  obtain ⟨hnone, hend, hrises, hsame, hback⟩ := positions_follow_bytes mixedText hsize
  exact ⟨⟨hsize, hfive, hnine⟩, (hnone 6).2 ⟨by decide, hinside⟩, hend 99 (by decide),
    hrises 5 9 hfive hnine (by decide), fun h => absurd (hsame 5 9 hfive hnine h) (by decide),
    (hback 9 ⟨1, 4⟩ hnine).1 (by decide)⟩

end ScriptAtlas.Position
