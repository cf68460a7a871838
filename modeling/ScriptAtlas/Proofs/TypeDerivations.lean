/-
How a type expression is read, as a derivation. The readers of type expressions
call each other and look ahead to choose between their rules; `Derives` has one
constructor for each choice, with what was seen ahead as its premises. The
readers and the derivations agree (`union?_eq_some_iff`), so that a property of
whatever is read is proved by induction on a derivation, one short case for each
rule.
-/
import ScriptAtlas.Proofs.TypeReaders

namespace ScriptAtlas.DocType

open Text

/-! ## Names -/

/-- A word that can stand alone as a name. -/
def IsWord (w : List Char) : Prop :=
  ∃ c r, w = c :: r ∧ isNameStart c = true ∧ ∀ d ∈ r, isNameChar d = true

/-- Words with dots between them. -/
inductive Dotted : List Char → Prop
  | one {w : List Char} (h : IsWord w) : Dotted w
  | more {w s : List Char} (h : IsWord w) (hs : Dotted s) : Dotted (w ++ '.' :: s)

theorem isNameChar_of_isNameStart {c : Char} (h : isNameStart c = true) : isNameChar c = true := by
  simp only [isNameStart, Bool.or_eq_true] at h
  simp only [isNameChar, isLetterOrDigit, Bool.or_eq_true]
  rcases h with (h | h) | h
  · exact .inl (.inl (.inl h))
  · exact .inl (.inr h)
  · exact .inr h

/-- The numbers of the blank characters. -/
def blanks : List Nat :=
  [9, 10, 11, 12, 13, 0x20, 0x85, 0xA0, 0x1680, 0x2000, 0x2001, 0x2002, 0x2003, 0x2004, 0x2005, 0x2006,
    0x2007, 0x2008, 0x2009, 0x200A, 0x2028, 0x2029, 0x202F, 0x205F, 0x3000]

theorem mem_blanks {c : Char} (h : isBlank c = true) : c.toNat ∈ blanks := by
  simp [isBlank] at h
  simp [blanks]
  omega

theorem isNameStart_of_mem_blanks : ∀ n ∈ blanks, isNameStart (Char.ofNat n) = false := by
  decide +kernel

theorem isBlank_of_isNameStart {c : Char} (h : isNameStart c = true) : isBlank c = false := by
  cases hb : isBlank c with
  | false => rfl
  | true =>
    have hc := isNameStart_of_mem_blanks _ (mem_blanks hb)
    rw [Char.ofNat_toNat, h] at hc
    cases hc

theorem IsWord.all {w : List Char} (h : IsWord w) : ∀ d ∈ w, isNameChar d = true := by
  obtain ⟨c, r, rfl, hc, hr⟩ := h
  intro d hd
  rcases List.mem_cons.1 hd with rfl | hd
  · exact isNameChar_of_isNameStart hc
  · exact hr d hd

theorem Dotted.head {n : List Char} (h : Dotted n) :
    ∃ c r, n = c :: r ∧ isNameStart c = true := by
  cases h with
  | one h =>
    obtain ⟨c, r, rfl, hc, -⟩ := h
    exact ⟨c, r, rfl, hc⟩
  | more h _ =>
    obtain ⟨c, r, rfl, hc, -⟩ := h
    exact ⟨c, _, rfl, hc⟩

/-- What is read as a name is one, where a name can start. -/
theorem dotted_dottedName {s : List Char} {c : Char} {r : List Char} (hs : s = c :: r)
    (hc : isNameStart c = true) : Dotted (dottedName s).1 := by
  have first {s : List Char} {c : Char} {r : List Char} (hs : s = c :: r)
      (hc : isNameStart c = true) : IsWord (s.takeWhile isNameChar) := by
    subst hs
    rw [List.takeWhile_cons_of_pos (isNameChar_of_isNameStart hc)]
    exact ⟨c, _, rfl, hc, fun d hd => List.all_eq_true.1 (List.all_takeWhile) d hd⟩
  fun_induction dottedName s generalizing c r with
  | case1 s d r' h hd more rest heq ih =>
    rw [heq] at ih
    exact .more (first hs hc) (ih rfl hd)
  | case2 => exact .one (first hs hc)
  | case3 => exact .one (first hs hc)

/-- Where a name can start and no path of a table does, a name is read. -/
theorem primary?_of_isNameStart {c : Char} {s r : List Char} (hs : trimStart s = c :: r)
    (hc : isNameStart c = true) (htable : behind? "db:/".toList (c :: r) = none) :
    primary? s = named? (c :: r) := by
  have hne {d : Char} (hd : isNameStart d = false) : c ≠ d := by
    rintro rfl
    rw [hd] at hc
    cases hc
  rw [primary?_eq, hs]
  simp only [htable, hc, hne (show isNameStart '(' = false by decide),
    hne (show isNameStart '*' = false by decide), hne (show isNameStart '\x22' = false by decide),
    hne (show isNameStart '\x27' = false by decide), hne (show isNameStart '{' = false by decide),
    hne (show isNameStart '[' = false by decide), if_false, if_true, or_self]

/-! ## Derivations -/

/-- The marks after a list of types. -/
def listEnds : List Char := [')', ']', '>']

/-- What is looked for in a text. -/
inductive Rule where
  | union
  | members
  | unary
  | primary
  | named
  | list (close : Char)
  | items

/-- What follows the parenthesis of a function type, where the name and what comes next are one. -/
def signature? (name s : List Char) : Option (List Char) :=
  if name = "function".toList then tail? '(' s else none

/-- By this rule `ts` is read from the front of `s`, and `r` is left. A rule for one expression reads a
list of one. -/
inductive Derives : Rule → List Char → List DocType → List Char → Prop
  /-- One expression alone is no union. -/
  | union {s r₁ r : List Char} {t : DocType} {ts : List DocType} (ht : Derives .unary s [t] r₁)
    (hts : Derives .members r₁ ts r) : Derives .union s [if ts.isEmpty then t else .union (t :: ts)] r
  | noMember {s : List Char} (h : tail? '|' s = none) : Derives .members s [] s
  | member {s s₁ r₁ r : List Char} {t : DocType} {ts : List DocType} (h : tail? '|' s = some s₁)
    (ht : Derives .unary s₁ [t] r₁) (hts : Derives .members r₁ ts r) : Derives .members s (t :: ts) r
  /-- A question mark with nothing behind it. -/
  | unknown {s r : List Char} (h : tail? '?' s = some r) (hend : endsUnknown (trimStart r) = true) :
    Derives .unary s [.unknown] r
  | nullable {s s₁ r : List Char} {t : DocType} (h : tail? '?' s = some s₁)
    (hend : endsUnknown (trimStart s₁) = false) (ht : Derives .unary s₁ [t] r) :
    Derives .unary s [.nullable t] r
  | required {s s₁ r : List Char} {t : DocType} (hnull : tail? '?' s = none)
    (h : tail? '!' s = some s₁) (ht : Derives .unary s₁ [t] r) : Derives .unary s [t] r
  | rest {s s₁ r : List Char} {t : DocType} (hnull : tail? '?' s = none) (hreq : tail? '!' s = none)
    (h : behind? ['.', '.', '.'] (trimStart s) = some s₁) (ht : Derives .unary s₁ [t] r) :
    Derives .unary s [t] r
  | posted {s r₁ r : List Char} {t u : DocType} (hnull : tail? '?' s = none)
    (hreq : tail? '!' s = none) (hrest : behind? ['.', '.', '.'] (trimStart s) = none)
    (ht : Derives .primary s [t] r₁) (hu : suffixed t r₁ = (u, r)) : Derives .unary s [u] r
  | grouped {s s₁ r₁ r : List Char} {t : DocType} (hs : trimStart s = '(' :: s₁)
    (ht : Derives .union s₁ [t] r₁) (hr : tail? ')' r₁ = some r) : Derives .primary s [t] r
  | all {s r : List Char} (hs : trimStart s = '*' :: r) : Derives .primary s [.all] r
  | quoted {s s₁ r : List Char} {q d : Char} (hs : trimStart s = q :: s₁)
    (hq : q = '\x22' ∨ q = '\x27') (hr : s₁.dropWhile (· != q) = d :: r) :
    Derives .primary s [.stringLiteral (String.ofList (s₁.takeWhile (· != q)))] r
  | record {s s₁ r : List Char} (hs : trimStart s = '{' :: s₁) (hr : closed? '{' '}' 1 s₁ = some r) :
    Derives .primary s [.record] r
  | array {s s₁ r : List Char} {ts : List DocType} (hs : trimStart s = '[' :: s₁)
    (hts : Derives (.list ']') s₁ ts r) : Derives .primary s [.array ts] r
  /-- The path of a table needs no quotes. -/
  | table {s s₁ : List Char} (hs : trimStart s = "db:/".toList ++ s₁) :
    Derives .primary s [.stringLiteral (String.ofList ("db:/".toList ++ s₁.takeWhile isTableChar))]
      (s₁.dropWhile isTableChar)
  | named {s s₁ r : List Char} {c : Char} {t : DocType} (hs : trimStart s = c :: s₁)
    (hc : isNameStart c = true) (htable : behind? "db:/".toList (c :: s₁) = none)
    (ht : Derives .named (c :: s₁) [t] r) : Derives .primary s [t] r
  | function {s r₀ r₁ r : List Char} {c : Char} {n : List Char} (hn : dottedName s = (c :: n, r₀))
    (hopen : signature? (c :: n) r₀ = some r₁) (hr : closed? '(' ')' 1 r₁ = some r)
    (hcolon : tail? ':' r = none) : Derives .named s [.function] r
  /-- The type that a function returns is read and dropped. -/
  | returning {s r₀ r₁ r₂ r₃ r : List Char} {c : Char} {n : List Char} {t : DocType}
    (hn : dottedName s = (c :: n, r₀)) (hopen : signature? (c :: n) r₀ = some r₁)
    (hr : closed? '(' ')' 1 r₁ = some r₂) (hcolon : tail? ':' r₂ = some r₃)
    (ht : Derives .unary r₃ [t] r) : Derives .named s [.function] r
  | name {s r : List Char} {c : Char} {n : List Char} (hn : dottedName s = (c :: n, r))
    (hdotted : Dotted (c :: n)) (hopen : signature? (c :: n) r = none) (hangle : angle? r = none) :
    Derives .named s [.name (String.ofList (c :: n))] r
  | application {s r₀ r₁ r : List Char} {c : Char} {n : List Char} {ts : List DocType}
    (hn : dottedName s = (c :: n, r₀)) (hdotted : Dotted (c :: n))
    (hopen : signature? (c :: n) r₀ = none) (hangle : angle? r₀ = some r₁)
    (hts : Derives (.list '>') r₁ ts r) :
    Derives .named s [.application (.name (String.ofList (c :: n))) ts] r
  | list {s r₁ r₂ r : List Char} {close : Char} {t : DocType} {ts : List DocType}
    (hclose : close ∈ listEnds) (ht : Derives .union s [t] r₁) (hts : Derives .items r₁ ts r₂)
    (hr : tail? close r₂ = some r) : Derives (.list close) s (t :: ts) r
  | noItem {s : List Char} (h : tail? ',' s = none) : Derives .items s [] s
  | item {s s₁ r₁ r : List Char} {t : DocType} {ts : List DocType} (h : tail? ',' s = some s₁)
    (ht : Derives .union s₁ [t] r₁) (hts : Derives .items r₁ ts r) : Derives .items s (t :: ts) r

theorem tail?_of_signature? {n s r : List Char} (h : signature? n s = some r) : tail? '(' s = some r :=
  (Option.ite_none_right_eq_some.1 h).2

theorem eq_of_behind? {lead s r : List Char} (h : behind? lead s = some r) : s = lead ++ r := by
  rw [behind?_eq] at h
  obtain ⟨hlead, hr⟩ := Option.ite_none_right_eq_some.1 h
  rw [← Option.some.inj hr]
  exact List.prefix_iff_eq_append.1 hlead |>.symm

theorem behind?_self (lead s : List Char) : behind? lead (lead ++ s) = some s := by
  rw [behind?_eq, if_pos (List.prefix_append lead s), List.drop_left]

/-! ## What is read is derived -/

mutual

theorem derives_union {s r : List Char} {t : DocType} (h : union? s = some (t, r)) :
    Derives .union s [t] r := by
  rw [union?_eq] at h
  obtain ⟨⟨u, r₁⟩, hu, h⟩ := Option.bind_eq_some_iff.1 h
  obtain ⟨⟨us, r₂⟩, hus, h⟩ := Option.map_eq_some_iff.1 h
  obtain ⟨rfl, rfl⟩ := Prod.mk.inj h
  have hlt := rest_of_bare hu
  exact .union (derives_unary hu) (derives_members hus)
termination_by (s.length, 4)

theorem derives_members {s r : List Char} {ts : List DocType} (h : members? s = some (ts, r)) :
    Derives .members s ts r := by
  rw [members?_eq] at h
  split at h
  · rename_i hnone
    obtain ⟨rfl, rfl⟩ := Prod.mk.inj (Option.some.inj h)
    exact .noMember hnone
  · rename_i s₁ hs₁
    have hlt := length_of_tail? hs₁
    obtain ⟨⟨u, r₁⟩, hu, h⟩ := Option.bind_eq_some_iff.1 h
    obtain ⟨⟨us, r₂⟩, hus, h⟩ := Option.map_eq_some_iff.1 h
    obtain ⟨rfl, rfl⟩ := Prod.mk.inj h
    have hlt₁ := rest_of_bare hu
    exact .member hs₁ (derives_unary hu) (derives_members hus)
termination_by (s.length, 0)

theorem derives_unary {s r : List Char} {t : DocType} (h : unary? s = some (t, r)) :
    Derives .unary s [t] r := by
  rw [unary?_eq] at h
  split at h
  · rename_i s₁ hs₁
    have hlt := length_of_tail? hs₁
    split at h
    · rename_i hend
      obtain ⟨rfl, rfl⟩ := Prod.mk.inj (Option.some.inj h)
      exact .unknown hs₁ hend
    · rename_i hend
      obtain ⟨⟨u, r₁⟩, hu, h⟩ := Option.map_eq_some_iff.1 h
      obtain ⟨rfl, rfl⟩ := Prod.mk.inj h
      exact .nullable hs₁ (Bool.eq_false_iff.2 hend) (derives_unary hu)
  rename_i hnull
  split at h
  · rename_i s₁ hs₁
    have hlt := length_of_tail? hs₁
    exact .required hnull hs₁ (derives_unary h)
  rename_i hreq
  split at h
  · rename_i s₁ hs₁
    have hlt : s₁.length < s.length := by
      have hdots := length_of_behind? hs₁
      have htrim := (suffix_trimStart s).length_le
      simp only [List.length_cons, List.length_nil] at hdots
      omega
    exact .rest hnull hreq hs₁ (derives_unary h)
  · rename_i hrest
    obtain ⟨⟨u, r₁⟩, hu, h⟩ := Option.map_eq_some_iff.1 h
    exact .posted hnull hreq hrest (derives_primary hu) h
termination_by (s.length, 3)

theorem derives_primary {s r : List Char} {t : DocType} (h : primary? s = some (t, r)) :
    Derives .primary s [t] r := by
  rw [primary?_eq] at h
  split at h
  · cases h
  rename_i c s₁ hs
  have hlt := length_of_trimStart hs
  split at h
  · rename_i hc
    subst hc
    obtain ⟨⟨u, r₁⟩, hu, h⟩ := Option.bind_eq_some_iff.1 h
    obtain ⟨r₂, hclose, h⟩ := Option.map_eq_some_iff.1 h
    obtain ⟨rfl, rfl⟩ := Prod.mk.inj h
    exact .grouped hs (derives_union hu) hclose
  split at h
  · rename_i hc
    subst hc
    obtain ⟨rfl, rfl⟩ := Prod.mk.inj (Option.some.inj h)
    exact .all hs
  split at h
  · rename_i hq
    split at h
    · cases h
    · rename_i hr
      obtain ⟨rfl, rfl⟩ := Prod.mk.inj (Option.some.inj h)
      exact .quoted hs hq hr
  split at h
  · rename_i hc
    subst hc
    obtain ⟨r₁, hclosed, h⟩ := Option.map_eq_some_iff.1 h
    obtain ⟨rfl, rfl⟩ := Prod.mk.inj h
    exact .record hs hclosed
  split at h
  · rename_i hc
    subst hc
    obtain ⟨⟨ts, r₁⟩, hlist, h⟩ := Option.map_eq_some_iff.1 h
    obtain ⟨rfl, rfl⟩ := Prod.mk.inj h
    exact .array hs (derives_list (by decide) hlist)
  split at h
  · rename_i htable
    obtain ⟨rfl, rfl⟩ := Prod.mk.inj (Option.some.inj h)
    exact .table (hs.trans (eq_of_behind? htable))
  · rename_i htable
    obtain ⟨hc, h⟩ := Option.ite_none_right_eq_some.1 h
    exact .named hs hc htable (derives_named hc h)
termination_by (s.length, 2)
decreasing_by
  all_goals simp only [Prod.lex_def, List.length_cons]
  all_goals omega

theorem derives_named {s r : List Char} {d : Char} {t : DocType} (hd : isNameStart d = true)
    (h : named? (d :: s) = some (t, r)) : Derives .named (d :: s) [t] r := by
  have hdotted := dotted_dottedName rfl hd (s := d :: s)
  rw [named?_eq] at h
  split at h
  · cases h
  rename_i c n r₀ hn
  rw [hn] at hdotted
  have hlt₀ := length_of_dottedName hn
  split at h
  · rename_i r₁ hopen
    obtain ⟨r₂, hclosed, h⟩ := Option.bind_eq_some_iff.1 h
    split at h
    · rename_i hcolon
      obtain ⟨rfl, rfl⟩ := Prod.mk.inj (Option.some.inj h)
      exact .function hn hopen hclosed hcolon
    · rename_i r₃ hcolon
      obtain ⟨⟨u, r₄⟩, hu, h⟩ := Option.map_eq_some_iff.1 h
      obtain ⟨rfl, rfl⟩ := Prod.mk.inj h
      have hlt : r₃.length < (d :: s).length := by
        have hlt₁ := length_of_tail? (tail?_of_signature? hopen)
        have hlt₂ := (suffix_of_closed? hclosed).length_le
        have hlt₃ := length_of_tail? hcolon
        omega
      exact .returning hn hopen hclosed hcolon (derives_unary hu)
  rename_i hopen
  split at h
  · rename_i hangle
    obtain ⟨rfl, rfl⟩ := Prod.mk.inj (Option.some.inj h)
    exact .name hn hdotted hopen hangle
  · rename_i r₁ hangle
    obtain ⟨⟨ts, r₂⟩, hlist, h⟩ := Option.map_eq_some_iff.1 h
    obtain ⟨rfl, rfl⟩ := Prod.mk.inj h
    have hlt : r₁.length < (d :: s).length := Nat.lt_trans (length_of_angle? hangle) hlt₀
    exact .application hn hdotted hopen hangle (derives_list (by decide) hlist)
termination_by ((d :: s).length, 1)

theorem derives_list {s r : List Char} {close : Char} {ts : List DocType} (hclose : close ∈ listEnds)
    (h : list? close s = some (ts, r)) : Derives (.list close) s ts r := by
  rw [list?_eq] at h
  obtain ⟨⟨u, r₁⟩, hu, h⟩ := Option.bind_eq_some_iff.1 h
  obtain ⟨⟨us, r₂⟩, hus, h⟩ := Option.bind_eq_some_iff.1 h
  obtain ⟨r₃, hr, h⟩ := Option.map_eq_some_iff.1 h
  obtain ⟨rfl, rfl⟩ := Prod.mk.inj h
  have hlt := rest_of_bare hu
  exact .list hclose (derives_union hu) (derives_items hus) hr
termination_by (s.length, 5)

theorem derives_items {s r : List Char} {ts : List DocType} (h : items? s = some (ts, r)) :
    Derives .items s ts r := by
  rw [items?_eq] at h
  split at h
  · rename_i hnone
    obtain ⟨rfl, rfl⟩ := Prod.mk.inj (Option.some.inj h)
    exact .noItem hnone
  · rename_i s₁ hs₁
    have hlt := length_of_tail? hs₁
    obtain ⟨⟨u, r₁⟩, hu, h⟩ := Option.bind_eq_some_iff.1 h
    obtain ⟨⟨us, r₂⟩, hus, h⟩ := Option.map_eq_some_iff.1 h
    obtain ⟨rfl, rfl⟩ := Prod.mk.inj h
    have hlt₁ := rest_of_bare hu
    exact .item hs₁ (derives_union hu) (derives_items hus)
termination_by (s.length, 0)

end

/-! ## What is derived is read -/

/-- One expression as a list of one. -/
def single (o : Option (DocType × List Char)) : Option (List DocType × List Char) :=
  o.map fun x => ([x.1], x.2)

@[simp] theorem single_eq_some_iff {o : Option (DocType × List Char)} {t : DocType} {r : List Char} :
    single o = some ([t], r) ↔ o = some (t, r) := by
  cases o <;> simp [single, Prod.ext_iff]

/-- What the reader for this rule gives. -/
def Rule.read : Rule → List Char → Option (List DocType × List Char)
  | .union, s => single (union? s)
  | .members, s => members? s
  | .unary, s => single (unary? s)
  | .primary, s => single (primary? s)
  | .named, s => single (named? s)
  | .list close, s => list? close s
  | .items, s => items? s

section

variable {rule : Rule} {s r : List Char} {t : DocType} {ts : List DocType}

/-- **The readers follow the derivations.** -/
theorem Derives.read_eq (h : Derives rule s ts r) : rule.read s = some (ts, r) := by
  induction h with
  | union _ _ iht ihts =>
    simp only [Rule.read, single_eq_some_iff] at iht ihts ⊢
    rw [union?_eq, iht, Option.bind_some, ihts]
    rfl
  | noMember h =>
    simp only [Rule.read]
    rw [members?_eq, h]
  | member h _ _ iht ihts =>
    simp only [Rule.read, single_eq_some_iff] at iht ihts ⊢
    rw [members?_eq, h]
    simp only [iht, ihts, Option.bind_some, Option.map_some]
  | unknown h hend =>
    simp only [Rule.read, single_eq_some_iff]
    rw [unary?_eq, h]
    exact if_pos hend
  | nullable h hend _ iht =>
    simp only [Rule.read, single_eq_some_iff] at iht ⊢
    rw [unary?_eq, h]
    simp only [hend, iht]
    rfl
  | required hnull h _ iht =>
    simp only [Rule.read, single_eq_some_iff] at iht ⊢
    rw [unary?_eq, hnull, h]
    exact iht
  | rest hnull hreq h _ iht =>
    simp only [Rule.read, single_eq_some_iff] at iht ⊢
    rw [unary?_eq, hnull, hreq, h]
    exact iht
  | posted hnull hreq hrest _ hu iht =>
    simp only [Rule.read, single_eq_some_iff] at iht ⊢
    rw [unary?_eq, hnull, hreq, hrest, posted?, iht]
    exact congrArg some hu
  | grouped hs _ hr iht =>
    simp only [Rule.read, single_eq_some_iff] at iht ⊢
    rw [primary?_eq, hs]
    simp only [if_true, iht, Option.bind_some, hr, Option.map_some]
  | all hs =>
    simp only [Rule.read, single_eq_some_iff]
    rw [primary?_eq, hs]
    rfl
  | quoted hs hq hr =>
    simp only [Rule.read, single_eq_some_iff]
    rw [primary?_eq, hs]
    rcases hq with rfl | rfl <;> simp [hr]
  | record hs hr =>
    simp only [Rule.read, single_eq_some_iff]
    rw [primary?_eq, hs]
    simp [hr]
  | array hs _ ihts =>
    simp only [Rule.read, single_eq_some_iff] at ihts ⊢
    rw [primary?_eq, hs]
    simp [ihts]
  | @table s s₁ hs =>
    have hlead : "db:/".toList ++ s₁ = 'd' :: 'b' :: ':' :: '/' :: s₁ := rfl
    have htable := behind?_self "db:/".toList s₁
    rw [hlead] at hs htable
    simp only [Rule.read, single_eq_some_iff]
    rw [primary?_eq, hs]
    simp only [htable]
    rfl
  | named hs hc htable _ iht =>
    simp only [Rule.read, single_eq_some_iff] at iht ⊢
    rw [primary?_of_isNameStart hs hc htable, iht]
  | function hn hopen hr hcolon =>
    rw [signature?] at hopen
    simp only [Rule.read, single_eq_some_iff]
    rw [named?_eq, hn]
    simp only [hopen, hr, hcolon, Option.bind_some]
  | returning hn hopen hr hcolon _ iht =>
    rw [signature?] at hopen
    simp only [Rule.read, single_eq_some_iff] at iht ⊢
    rw [named?_eq, hn]
    simp only [hopen, hr, hcolon, iht, Option.bind_some, Option.map_some]
  | name hn _ hopen hangle =>
    rw [signature?] at hopen
    simp only [Rule.read, single_eq_some_iff]
    rw [named?_eq, hn]
    simp only [hopen, hangle]
  | application hn _ hopen hangle _ ihts =>
    rw [signature?] at hopen
    simp only [Rule.read, single_eq_some_iff] at ihts ⊢
    rw [named?_eq, hn]
    simp only [hopen, hangle, ihts, Option.map_some]
  | list _ _ _ hr iht ihts =>
    simp only [Rule.read, single_eq_some_iff] at iht ihts ⊢
    rw [list?_eq, iht, Option.bind_some, ihts, Option.bind_some, hr]
    rfl
  | noItem h =>
    simp only [Rule.read]
    rw [items?_eq, h]
  | item h _ _ iht ihts =>
    simp only [Rule.read, single_eq_some_iff] at iht ihts ⊢
    rw [items?_eq, h]
    simp only [iht, ihts, Option.bind_some, Option.map_some]

theorem Derives.ne_nil_of_list {close : Char} (h : Derives (.list close) s ts r) : ts ≠ [] := by
  cases h
  simp

/-- What is left is a suffix of the text. -/
theorem Derives.suffix (h : Derives rule s ts r) : r <:+ s := by
  induction h with
  | union _ _ iht ihts => exact ihts.trans iht
  | noMember | noItem => exact List.suffix_rfl
  | member h _ _ iht ihts | item h _ _ iht ihts =>
    exact (ihts.trans iht).trans (suffix_of_tail? h)
  | unknown h => exact suffix_of_tail? h
  | nullable h _ _ iht => exact iht.trans (suffix_of_tail? h)
  | required _ h _ iht => exact iht.trans (suffix_of_tail? h)
  | rest _ _ h _ iht => exact iht.trans ((suffix_of_behind? h).trans (suffix_trimStart _))
  | @posted s r₁ r t u _ _ _ _ hu iht =>
    have hr := suffix_suffixed t r₁
    rw [hu] at hr
    exact hr.trans iht
  | grouped hs _ hr iht => exact ((suffix_of_tail? hr).trans iht).trans (suffix_of_trimStart hs)
  | all hs => exact suffix_of_trimStart hs
  | quoted hs _ hr =>
    have hquote := hr ▸ List.dropWhile_suffix _
    exact ((List.suffix_cons _ _).trans hquote).trans (suffix_of_trimStart hs)
  | record hs hr => exact (suffix_of_closed? hr).trans (suffix_of_trimStart hs)
  | array hs _ ihts => exact ihts.trans (suffix_of_trimStart hs)
  | table hs =>
    exact ((List.dropWhile_suffix _).trans (List.suffix_append _ _)).trans (hs ▸ suffix_trimStart _)
  | named hs _ _ _ iht => exact iht.trans (hs ▸ suffix_trimStart _)
  | function hn hopen hr =>
    have hsign := suffix_of_tail? (tail?_of_signature? hopen)
    exact ((suffix_of_closed? hr).trans hsign).trans (suffix_of_dottedName hn)
  | returning hn hopen hr hcolon _ iht =>
    have hsign := suffix_of_tail? (tail?_of_signature? hopen)
    have hbehind := ((suffix_of_closed? hr).trans hsign).trans (suffix_of_dottedName hn)
    exact (iht.trans (suffix_of_tail? hcolon)).trans hbehind
  | name hn => exact suffix_of_dottedName hn
  | application hn _ _ hangle _ ihts =>
    exact (ihts.trans (suffix_of_angle? hangle)).trans (suffix_of_dottedName hn)
  | list _ _ _ hr iht ihts => exact ((suffix_of_tail? hr).trans ihts).trans iht

theorem union?_eq_some_iff : union? s = some (t, r) ↔ Derives .union s [t] r :=
  ⟨derives_union, fun h => single_eq_some_iff.1 h.read_eq⟩

theorem parse?_eq_some_iff {e : String} :
    parse? e = some t ↔ ∃ r, Derives .union e.toList [t] r ∧ trimStart r = [] := by
  simp only [parse?_eq, Option.bind_eq_some_iff, Prod.exists, union?_eq_some_iff,
    Option.ite_none_right_eq_some, List.isEmpty_iff, Option.some.injEq]
  constructor
  · rintro ⟨u, r, hu, hr, rfl⟩
    exact ⟨r, hu, hr⟩
  · rintro ⟨r, hu, hr⟩
    exact ⟨t, r, hu, hr, rfl⟩

end

end ScriptAtlas.DocType
