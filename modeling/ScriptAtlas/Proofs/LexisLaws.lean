/-
Nothing is lost when a text is split. What a function for words, marks, numbers,
strings or comments finds, followed by what it leaves, is the text it was given.
`Splits` says so of a function that may find nothing; those that always find
something, if only the empty text, have an equation of their own.
-/
import ScriptAtlas.Script.Markup

namespace ScriptAtlas.Script

namespace Lexis

/-- What is found and what follows it are the text that was split. -/
class Splits (split : List Char → Option Split) : Prop where
  append : ∀ {s t rest : List Char}, split s = some (t, rest) → t ++ rest = s

/-- A function that finds something in every text. -/
theorem Splits.total {split : List Char → Split} (h : ∀ s, (split s).1 ++ (split s).2 = s) :
    Splits fun s => some (split s) where
  append {s _ _} he := by
    rw [← h s, Option.some.inj he]

instance (p : Char → Bool) : Splits fun s => some (s.takeWhile p, s.dropWhile p) :=
  .total fun _ => List.takeWhile_append_dropWhile

/-! ## Words -/

instance : Splits codePoint? where
  append {s t rest} h := by
    unfold codePoint? at h
    split at h
    · rename_i after
      split at h
      · cases h
      · rename_i more hm _
        obtain ⟨rfl, rfl⟩ := Prod.mk.inj (Option.some.inj h)
        have hdigits : after.takeWhile isHexDigit ++ '}' :: more = after := by
          rw [← hm, List.takeWhile_append_dropWhile]
        rw [List.append_assoc, List.append_assoc, List.singleton_append, hdigits]
        rfl
      · cases h
    · split at h
      · obtain ⟨rfl, rfl⟩ := Prod.mk.inj (Option.some.inj h)
        simp
      · cases h
    · cases h

theorem wordTail_append (n : Nat) (s : List Char) : (wordTail n s).1 ++ (wordTail n s).2 = s := by
  fun_induction wordTail n s with
  | case1 => rfl
  | case2 => rfl
  | case3 n c cs hc t rest heq ih =>
    rw [heq] at ih
    exact congrArg (c :: ·) ih
  | case4 n c cs hc e after t rest heq he ih =>
    rw [heq] at ih
    simp only [he, heq, List.append_assoc, ih]
    exact Splits.append he
  | case5 n c cs hc he => simp only [he, List.nil_append]

instance : Splits word? where
  append {s t rest} h := by
    unfold word? at h
    split at h
    · cases h
    · rename_i c cs
      split at h
      · obtain ⟨rfl, rfl⟩ := Prod.mk.inj (Option.some.inj h)
        exact congrArg (c :: ·) (wordTail_append _ cs)
      · simp only [Option.bind_eq_bind, Option.bind_eq_some_iff] at h
        obtain ⟨⟨e, after⟩, he, h⟩ := h
        obtain ⟨rfl, rfl⟩ := Prod.mk.inj (Option.some.inj h)
        rw [List.append_assoc, wordTail_append]
        exact Splits.append he

instance : Splits privateName? where
  append {s t rest} h := by
    unfold privateName? at h
    split at h
    · obtain ⟨⟨w, after⟩, hw, h⟩ := Option.map_eq_some_iff.1 h
      obtain ⟨rfl, rfl⟩ := Prod.mk.inj h
      exact congrArg ('#' :: ·) (Splits.append hw)
    · cases h

/-! ## Comments -/

instance : Splits blockEnd? where
  append {s t rest} h := by
    fun_induction blockEnd? s generalizing t with
    | case1 => cases h
    | case2 =>
      obtain ⟨rfl, rfl⟩ := Prod.mk.inj (Option.some.inj h)
      rfl
    | case3 c cs _ ih =>
      obtain ⟨⟨u, after⟩, hu, h⟩ := Option.map_eq_some_iff.1 h
      obtain ⟨rfl, rfl⟩ := Prod.mk.inj h
      exact congrArg (c :: ·) (ih hu)

instance : Splits comment? where
  append {s t rest} h := by
    unfold comment? at h
    split at h
    · obtain ⟨rfl, rfl⟩ := Prod.mk.inj (Option.some.inj h)
      simp [List.takeWhile_append_dropWhile]
    · obtain ⟨⟨u, after⟩, hu, h⟩ := Option.map_eq_some_iff.1 h
      obtain ⟨rfl, rfl⟩ := Prod.mk.inj h
      exact congrArg (['/', '*'] ++ ·) (Splits.append hu)
    · cases h

theorem restOfLine_append (s : List Char) : (restOfLine s).1 ++ (restOfLine s).2 = s :=
  List.takeWhile_append_dropWhile

instance : Splits htmlComment? where
  append {s t rest} h := by
    unfold htmlComment? at h
    split at h
    · obtain ⟨rfl, rfl⟩ := Prod.mk.inj (Option.some.inj h)
      exact congrArg (['<', '!', '-', '-'] ++ ·) (restOfLine_append _)
    · obtain ⟨rfl, rfl⟩ := Prod.mk.inj (Option.some.inj h)
      exact congrArg (['-', '-', '>'] ++ ·) (restOfLine_append _)
    · cases h

/-! ## Numbers -/

theorem digits_go_append (isDigit : Char → Bool) (acc s : List Char) :
    (digits.go isDigit acc s).1 ++ (digits.go isDigit acc s).2 = acc.reverse ++ s := by
  fun_induction digits.go isDigit acc s with
  | case1 acc d rest hd ih => simpa using ih
  | case2 => rfl
  | case3 acc d rest _ hd ih => simpa using ih
  | case4 => rfl
  | case5 => rfl

theorem digits_append (isDigit : Char → Bool) (s : List Char) :
    (digits isDigit s).1 ++ (digits isDigit s).2 = s := by
  unfold digits
  split
  · rfl
  · split
    · exact digits_go_append isDigit _ _
    · rfl

theorem exponent_append (s : List Char) : (exponent s).1 ++ (exponent s).2 = s := by
  unfold exponent
  split
  · rename_i e rest
    split
    · split
      rename_i sign after hsign
      have hrest : sign ++ after = rest := by
        split at hsign <;> obtain ⟨rfl, rfl⟩ := Prod.mk.inj hsign <;> rfl
      have hdigits := digits_append Char.isDigit after
      split
      · rfl
      · rename_i heq
        rw [heq] at hdigits
        simp only [List.cons_append, List.append_assoc, hdigits, hrest]
    · rfl
  · rfl

theorem bigMark_append (s : List Char) : (bigMark s).1 ++ (bigMark s).2 = s := by
  unfold bigMark
  split <;> rfl

theorem append_of_based? {isDigit : Char → Bool} {lead s t rest : List Char}
    (h : based? isDigit lead s = some (t, rest)) : t ++ rest = lead ++ s := by
  have hdigits := digits_append isDigit s
  unfold based? at h
  split at h
  · cases h
  · rename_i ds after _ heq
    rw [heq] at hdigits
    have hbig := bigMark_append after
    split at h
    rename_i big rest' hb
    rw [hb] at hbig
    obtain ⟨rfl, rfl⟩ := Prod.mk.inj (Option.some.inj h)
    simp only [List.append_assoc, hbig, hdigits]

theorem decimal_append (s : List Char) : (decimal s).1 ++ (decimal s).2 = s := by
  have hdigits := digits_append Char.isDigit s
  unfold decimal
  split
  rename_i ds rest heq
  rw [heq] at hdigits
  simp only at hdigits ⊢
  have hbig : (ds ++ (bigMark rest).1) ++ (bigMark rest).2 = s := by
    rw [List.append_assoc, bigMark_append, hdigits]
  split
  · split
    · rename_i after
      simp only [List.append_assoc, List.cons_append, exponent_append, digits_append, hdigits]
    · have hexp := exponent_append rest
      split
      · exact hbig
      · rename_i he
        rw [he] at hexp
        simp only [List.append_assoc, hexp, hdigits]
  · exact hbig

instance : Splits number? where
  append {s t rest} h := by
    unfold number? at h
    split at h
    · split at h
      · rw [Option.some.injEq] at h
        rw [show t = _ from (congrArg Prod.fst h).symm, show rest = _ from (congrArg Prod.snd h).symm]
        simp only [List.cons_append, List.append_assoc, exponent_append, digits_append]
      · cases h
    · rename_i b after
      extract_lets other at h
      have hother : ∀ x, other = some x → x.1 ++ x.2 = '0' :: b :: after := by
        intro x hx
        simp only [other] at hx
        split at hx
        · exact append_of_based? hx
        split at hx
        · exact append_of_based? hx
        split at hx
        · exact append_of_based? hx
        · cases hx
      clear_value other
      cases other with
      | none => exact (Splits.total decimal_append).append h
      | some x =>
        obtain rfl := Option.some.inj h
        exact hother _ rfl
    · split at h
      · exact (Splits.total decimal_append).append h
      · cases h
    · cases h

/-! ## Strings, templates and regular expressions -/

instance : Splits escape? where
  append {s t rest} h := by
    unfold escape? at h
    split at h
    · split at h
      · obtain ⟨rfl, rfl⟩ := Prod.mk.inj (Option.some.inj h)
        rfl
      · cases h
    · cases h
    · exact Splits.append h
    · extract_lets isOctal at h
      split at h
      · obtain ⟨rfl, rfl⟩ := Prod.mk.inj (Option.some.inj h)
        rw [List.cons_append, List.cons_inj_right]
        exact List.prefix_iff_eq_append.1 ((List.take_prefix _ _).trans (List.takeWhile_prefix _))
      split at h
      · split at h
        · split at h <;> obtain ⟨rfl, rfl⟩ := Prod.mk.inj (Option.some.inj h) <;> rfl
        · obtain ⟨rfl, rfl⟩ := Prod.mk.inj (Option.some.inj h)
          rfl
      · obtain ⟨rfl, rfl⟩ := Prod.mk.inj (Option.some.inj h)
        rfl
    · cases h

instance (quote : Char) : Splits (stringText? quote) where
  append {s t rest} h := by
    unfold stringText? at h
    extract_lets plain at h
    split at h
    · cases h
    · obtain ⟨rfl, rfl⟩ := Prod.mk.inj (Option.some.inj h)
      exact List.takeWhile_append_dropWhile

theorem templateText_append (s : List Char) : (templateText s).1 ++ (templateText s).2 = s := by
  fun_induction templateText s with
  | case1 => rfl
  | case2 => rfl
  | case3 => rfl
  | case4 c cs _ _ t rest heq ih =>
    rw [heq] at ih
    exact congrArg (c :: ·) ih

instance : Splits fun s => some (templateText s) := .total templateText_append

instance : Splits regexClass? where
  append {s t rest} h := by
    fun_induction regexClass? s generalizing t with
    | case1 =>
      obtain ⟨rfl, rfl⟩ := Prod.mk.inj (Option.some.inj h)
      rfl
    | case2 => cases h
    | case3 c cs _ ih =>
      obtain ⟨⟨u, after⟩, hu, h⟩ := Option.map_eq_some_iff.1 h
      obtain ⟨rfl, rfl⟩ := Prod.mk.inj h
      exact congrArg (['\\', c] ++ ·) (ih hu)
    | case4 => cases h
    | case5 c cs _ _ _ ih =>
      obtain ⟨⟨u, after⟩, hu, h⟩ := Option.map_eq_some_iff.1 h
      obtain ⟨rfl, rfl⟩ := Prod.mk.inj h
      exact congrArg (c :: ·) (ih hu)
    | case6 => cases h

theorem regexPattern_append (n : Nat) (s : List Char) :
    (regexPattern n s).1 ++ (regexPattern n s).2 = s := by
  fun_induction regexPattern n s with
  | case1 => rfl
  | case2 n rest t after ht more after' heq ih =>
    rw [heq] at ih
    simp only [List.cons_append, List.append_assoc, ih]
    exact congrArg ('[' :: ·) (Splits.append ht)
  | case3 => rfl
  | case4 => rfl
  | case5 n c rest _ more after heq ih =>
    rw [heq] at ih
    exact congrArg (['\\', c] ++ ·) ih
  | case6 => rfl
  | case7 n c rest _ _ _ more after heq ih =>
    rw [heq] at ih
    exact congrArg (c :: ·) ih
  | case8 => rfl

instance : Splits fun s => some (regexPattern s.length s) := .total fun s => regexPattern_append _ s

/-! ## Marks -/

theorem mark_isPrefix (s : List Char) : mark s <+: s := by
  unfold mark
  split
  · split
    · exact ⟨_, rfl⟩
    · exact ⟨_, rfl⟩
  · cases hfind : longMarks.find? (·.isPrefixOf s) with
    | none => exact List.take_prefix 1 s
    | some m =>
      have hm := List.find?_some hfind
      exact List.isPrefixOf_iff_prefix.1 hm

/-! ## Markup -/

instance : Splits tagWord? where
  append {s t rest} h := by
    unfold tagWord? at h
    obtain ⟨⟨w, after⟩, hw, h⟩ := Option.bind_eq_some_iff.1 h
    have hword := Splits.append hw
    simp only at h
    split at h
    · obtain ⟨rfl, rfl⟩ := Prod.mk.inj (Option.some.inj h)
      rw [List.append_assoc, List.takeWhile_append_dropWhile, hword]
    · obtain ⟨rfl, rfl⟩ := Prod.mk.inj (Option.some.inj h)
      exact hword

instance : Splits entity? where
  append {s t rest} h := by
    unfold entity? at h
    split at h
    · rename_i s
      extract_lets body at h
      have hbody : ∀ x, body = some x → x.1 ++ x.2 = s := by
        intro x hx
        simp only [body] at hx
        have htaken (p : Char → Bool) (n : Nat) (u : List Char) :
            (u.takeWhile p).take n ++ u.drop ((u.takeWhile p).take n).length = u :=
          List.prefix_iff_eq_append.1 ((List.take_prefix _ _).trans (List.takeWhile_prefix _))
        split at hx
        · split at hx
          · obtain rfl := Option.some.inj hx
            exact congrArg (['#', _] ++ ·) (htaken isHexDigit 6 _)
          · obtain rfl := Option.some.inj hx
            exact congrArg ('#' :: ·) (htaken Char.isDigit 5 _)
        · obtain rfl := Option.some.inj hx
          exact htaken Char.isAlpha 30 _
      clear_value body
      split at h
      · rename_i u after
        obtain ⟨-, h⟩ := Option.ite_none_left_eq_some.1 h
        obtain ⟨rfl, rfl⟩ := Prod.mk.inj (Option.some.inj h)
        rw [← hbody _ rfl]
        simp
      · cases h
    · cases h

instance : Splits markupText? where
  append {s t rest} h := by
    unfold markupText? at h
    extract_lets plain u counts at h
    obtain ⟨-, h⟩ := Option.ite_none_right_eq_some.1 h
    obtain ⟨rfl, rfl⟩ := Prod.mk.inj (Option.some.inj h)
    exact List.takeWhile_append_dropWhile

theorem attributeText_append (quote : Char) (s : List Char) :
    (attributeText quote s).1 ++ (attributeText quote s).2 = s := by
  fun_induction attributeText quote s with
  | case1 => rfl
  | case2 => rfl
  | case3 c cs _ _ t rest heq ih =>
    rw [heq] at ih
    exact congrArg (c :: ·) ih

instance (quote : Char) : Splits fun s => some (attributeText quote s) :=
  .total (attributeText_append quote)

end Lexis

/-! ## Words and marks that are looked for -/

namespace Reader

open Lexis

instance (text : List Char) : Splits (exactly text) where
  append {s t rest} h := by
    obtain ⟨hlead, h⟩ := Option.ite_none_right_eq_some.1 h
    obtain ⟨rfl, rfl⟩ := Prod.mk.inj (Option.some.inj h)
    exact List.prefix_iff_eq_append.1 (List.isPrefixOf_iff_prefix.1 hlead)

instance (marks : List String) : Splits (markIn marks) where
  append {s t rest} h := by
    obtain ⟨-, h⟩ := Option.ite_none_right_eq_some.1 h
    obtain ⟨rfl, rfl⟩ := Prod.mk.inj (Option.some.inj h)
    exact List.prefix_iff_eq_append.1 (mark_isPrefix s)

instance (words : List String) : Splits (wordIn words) where
  append {s t rest} h := by
    unfold wordIn at h
    split at h
    · rename_i hword
      obtain ⟨-, h⟩ := Option.ite_none_right_eq_some.1 h
      obtain ⟨rfl, rfl⟩ := Prod.mk.inj (Option.some.inj h)
      exact Splits.append hword
    · cases h

end Reader

end ScriptAtlas.Script
