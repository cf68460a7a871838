/-
Well-formed type expressions. `WellFormed` says which trees the grammar has:
names are dotted words, only names are applied, lists are not empty. Whatever
the readers give is well formed (`soundAt`), by induction on how it was read.
-/
import ScriptAtlas.Proofs.TypeDerivations

namespace ScriptAtlas.DocType

open Text

/-! ## Well-formed expressions -/

mutual

/-- The expression can be written: names are dotted words, only names are applied, lists are not
empty, a union has two members or more, and a literal leaves a quote to put around it. -/
def WellFormed : DocType → Prop
  | name n => Dotted n.toList
  | application base args => (∃ n, base = .name n ∧ Dotted n.toList) ∧ args ≠ [] ∧ AllWellFormed args
  | array items => items ≠ [] ∧ AllWellFormed items
  | optional t => t.WellFormed
  | nullable t => t.WellFormed
  | union items => 2 ≤ items.length ∧ AllWellFormed items
  | stringLiteral v => '\x22' ∉ v.toList ∨ '\x27' ∉ v.toList
  | all | unknown | record | function => True

/-- All the expressions can be written. -/
def AllWellFormed : List DocType → Prop
  | [] => True
  | t :: ts => t.WellFormed ∧ AllWellFormed ts

end

/-- The expression `u` is `t` or stands in it. -/
inductive Within (u : DocType) : DocType → Prop
  | self : Within u u
  | base {b : DocType} {args : List DocType} (h : Within u b) : Within u (.application b args)
  | argument {b t : DocType} {args : List DocType} (ht : t ∈ args) (h : Within u t) :
    Within u (.application b args)
  | item {t : DocType} {items : List DocType} (ht : t ∈ items) (h : Within u t) : Within u (.array items)
  | optional {t : DocType} (h : Within u t) : Within u (.optional t)
  | nullable {t : DocType} (h : Within u t) : Within u (.nullable t)
  | member {t : DocType} {items : List DocType} (ht : t ∈ items) (h : Within u t) :
    Within u (.union items)

theorem AllWellFormed.mem {ts : List DocType} (h : AllWellFormed ts) : ∀ t ∈ ts, t.WellFormed := by
  induction ts with
  | nil => nofun
  | cons t ts ih => exact List.forall_mem_cons.2 ⟨h.1, ih h.2⟩

theorem Within.wellFormed {t u : DocType} (h : Within u t) (ht : t.WellFormed) : u.WellFormed := by
  induction h with
  | self => exact ht
  | base _ ih =>
    obtain ⟨⟨n, rfl, hn⟩, -⟩ := ht
    exact ih hn
  | argument hmem _ ih => exact ih (ht.2.2.mem _ hmem)
  | item hmem _ ih => exact ih (ht.2.mem _ hmem)
  | optional _ ih => exact ih ht
  | nullable _ ih => exact ih ht
  | member hmem _ ih => exact ih (ht.2.mem _ hmem)

/-! ## What is read is well formed -/

section

variable {t : DocType} {ts : List DocType} {s r : List Char}

theorem dotted_array : Dotted "Array".toList :=
  .one ⟨'A', "rray".toList, rfl, by decide, List.all_eq_true.1 (by decide)⟩

theorem wellFormed_suffixed (ht : t.WellFormed) : (suffixed t s).1.WellFormed := by
  unfold suffixed
  fun_induction suffixes t s with
  | case1 t s r h hr t' r' heq ih =>
    rw [heq] at ih
    exact ih ⟨⟨"Array", rfl, dotted_array⟩, by simp, ht, trivial⟩
  | case2 t s r h hr t' r' heq ih =>
    rw [heq] at ih
    exact ih ht
  | case3 => exact ht

theorem wellFormed_quoted {q : Char} (hq : q = '\x22' ∨ q = '\x27') (s : List Char) :
    (stringLiteral (String.ofList (s.takeWhile (· != q)))).WellFormed := by
  have hmem : q ∉ s.takeWhile (· != q) := fun h => by
    simpa using List.all_eq_true.1 List.all_takeWhile q h
  rw [WellFormed, String.toList_ofList]
  rcases hq with rfl | rfl
  · exact .inl hmem
  · exact .inr hmem

theorem wellFormed_table (s : List Char) :
    (stringLiteral (String.ofList ("db:/".toList ++ s.takeWhile isTableChar))).WellFormed := by
  have hmem : '\x22' ∉ s.takeWhile isTableChar := fun h => by
    have := List.all_eq_true.1 List.all_takeWhile _ h
    revert this
    decide
  rw [WellFormed, String.toList_ofList]
  exact .inl (by simp [hmem])

/-- **What is derived is well formed.** -/
theorem Derives.allWellFormed {rule : Rule} (h : Derives rule s ts r) : AllWellFormed ts := by
  induction h with
  | @union _ _ _ t ts _ _ iht ihts =>
    cases ts with
    | nil => exact iht
    | cons u us => exact ⟨⟨by simp, iht.1, ihts⟩, trivial⟩
  | noMember | noItem => trivial
  | member _ _ _ iht ihts | item _ _ _ iht ihts => exact ⟨iht.1, ihts⟩
  | unknown | all | record | function | returning => exact ⟨trivial, trivial⟩
  | nullable _ _ _ iht => exact iht
  | required _ _ _ iht | rest _ _ _ _ iht => exact iht
  | @posted _ r₁ _ _ _ _ _ _ _ hu iht =>
    have hwell := wellFormed_suffixed (s := r₁) iht.1
    rw [hu] at hwell
    exact ⟨hwell, trivial⟩
  | grouped _ _ _ iht => exact iht
  | @quoted _ s₁ _ _ _ _ hq => exact ⟨wellFormed_quoted hq s₁, trivial⟩
  | array _ hts ihts => exact ⟨⟨hts.ne_nil_of_list, ihts⟩, trivial⟩
  | @table _ s₁ => exact ⟨wellFormed_table s₁, trivial⟩
  | named _ _ _ _ iht => exact iht
  | name _ hdotted => exact ⟨by rwa [WellFormed, String.toList_ofList], trivial⟩
  | application _ hdotted _ _ hts ihts =>
    exact ⟨⟨⟨_, rfl, by rwa [String.toList_ofList]⟩, hts.ne_nil_of_list, ihts⟩, trivial⟩
  | list _ _ _ _ iht ihts => exact ⟨iht.1, ihts⟩

/-- What the readers find in this text is well formed. -/
structure SoundAt (s : List Char) : Prop where
  union : ∀ {t r}, union? s = some (t, r) → t.WellFormed
  members : ∀ {ts r}, members? s = some (ts, r) → AllWellFormed ts
  unary : ∀ {t r}, unary? s = some (t, r) → t.WellFormed
  items : ∀ {ts r}, items? s = some (ts, r) → AllWellFormed ts

/-- **The readers are sound** on every text. -/
theorem soundAt (s : List Char) : SoundAt s where
  union h := (derives_union h).allWellFormed.1
  members h := (derives_members h).allWellFormed
  unary h := (derives_unary h).allWellFormed.1
  items h := (derives_items h).allWellFormed

end

end ScriptAtlas.DocType
