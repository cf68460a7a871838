/-
Well-formed types. The fields of a type say things twice: whether there are array
levels and how many, and the table that the first generic argument names. They
agree in every type that an expression or a code of the platform stands for.

Array levels are counted in a word of 32 bits, so the agreement rests on a bound:
what is read has at most as many parts as its text has characters
(`Derives.size_le`), and each level is a part. A type is optional only if its
expression has the mark for it (`Derives.optional_eq_false`).
-/
import Mathlib.Algebra.Order.Group.Nat
import ScriptAtlas.PlatformType
import ScriptAtlas.Proofs.TypeDerivations

namespace ScriptAtlas

/-! ## Well-formed types -/

namespace TypeInfo

mutual

/-- The type is an array exactly if it has array levels, it has a table exactly if its first generic
argument names that table, and its generic arguments are well formed. -/
def WellFormed : TypeInfo → Prop
  | ⟨_, _, isArray, arrayDepth, args, table⟩ =>
    (isArray = true ↔ 1 ≤ arrayDepth) ∧
    (∀ r, table = some r ↔ args.head?.map (·.name) = some ("db:/" ++ r)) ∧ AllWellFormed args

/-- All the types are well formed. -/
def AllWellFormed : List TypeInfo → Prop
  | [] => True
  | t :: ts => t.WellFormed ∧ AllWellFormed ts

end

section

variable {t : TypeInfo} {n : UInt32}

theorem wellFormed_iff : t.WellFormed ↔ (t.isArray = true ↔ 1 ≤ t.arrayDepth) ∧
    (∀ r, t.dbTableRef = some r ↔ t.genericArgs.head?.map (·.name) = some ("db:/" ++ r)) ∧
      AllWellFormed t.genericArgs := by
  cases t
  rfl

theorem wellFormed_named (name : String) : (named name).WellFormed :=
  ⟨by decide, fun r => by simp, trivial⟩

theorem WellFormed.intoOptional (h : t.WellFormed) : t.intoOptional.WellFormed := by
  have hfields := wellFormed_iff.1 h
  exact wellFormed_iff.2 hfields

theorem WellFormed.intoArray (h : t.WellFormed) (hn : t.arrayDepth.toNat + n.toNat < 2 ^ 32) :
    (t.intoArray n).WellFormed := by
  unfold TypeInfo.intoArray
  split
  · exact h
  · rename_i hne
    refine wellFormed_iff.2 ⟨⟨fun _ => ?_, fun _ => rfl⟩, (wellFormed_iff.1 h).2⟩
    have hpos : n.toNat ≠ 0 := fun h0 => hne (UInt32.toNat_inj.1 h0)
    rw [UInt32.le_iff_toNat_le, UInt32.toNat_add, Nat.mod_eq_of_lt hn]
    show 1 ≤ _
    omega

theorem arrayDepth_intoArray_le :
    (t.intoArray n).arrayDepth.toNat ≤ t.arrayDepth.toNat + n.toNat := by
  unfold TypeInfo.intoArray
  split
  · omega
  · rw [UInt32.toNat_add]
    exact Nat.mod_le _ _

@[simp] theorem optional_intoArray : (t.intoArray n).optional = t.optional := by
  unfold TypeInfo.intoArray
  split <;> rfl

end

end TypeInfo

/-! ## Types of expressions -/

namespace DocType

open Text TypeInfo

mutual

/-- The number of expressions in an expression. -/
def size : DocType → Nat
  | application base args => size base + sizes args + 1
  | array items => sizes items + 1
  | optional t => size t + 1
  | nullable t => size t + 1
  | union items => sizes items + 1
  | _ => 1

/-- The number of expressions in several expressions. -/
def sizes : List DocType → Nat
  | [] => 0
  | t :: ts => size t + sizes ts

end

theorem tableOf_eq_some_iff (args : List TypeInfo) (r : String) :
    tableOf args = some r ↔ args.head?.map (·.name) = some ("db:/" ++ r) := by
  cases args with
  | nil => simp [tableOf]
  | cons a args =>
    rw [List.head?_cons, Option.map_some, Option.some.injEq, tableOf, ← String.toList_inj,
      String.toList_append]
    constructor
    · intro h
      obtain ⟨hlead, hr⟩ := Option.ite_none_right_eq_some.1 h
      obtain ⟨rest, hrest⟩ := List.isPrefixOf_iff_prefix.1 hlead
      have hdrop : ("db:/".toList ++ rest).drop 4 = rest := rfl
      rw [← Option.some.inj hr, ← hrest, hdrop]
      exact congrArg _ String.toList_ofList.symm
    · intro h
      rw [h, if_pos (List.isPrefixOf_iff_prefix.2 (List.prefix_append _ _))]
      exact congrArg some (String.ofList_toList)

/-- A plain name is the type of that name, perhaps in lower case, or an array of something. -/
theorem namedType_cases (n : String) :
    namedType n = TypeInfo.unknown.intoArray 1 ∨ ∃ m, namedType n = .named m := by
  unfold namedType
  split
  · exact .inl rfl
  · extract_lets low
    split
    · exact .inr ⟨low, rfl⟩
    · exact .inr ⟨n, rfl⟩

mutual

/-- Every array level of a type comes from a part of its expression. -/
theorem arrayDepth_type_le : ∀ t : DocType, t.type.arrayDepth.toNat ≤ t.size
  | .name n => by
    rw [type]
    rcases namedType_cases n with hn | ⟨m, hn⟩
    · exact hn ▸ Nat.le_refl 1
    · exact hn ▸ Nat.zero_le 1
  | .application b args => by
    cases b with
    | name n =>
      rw [type]
      split
      · have hfirst := arrayDepth_firstType_le args
        have harray := arrayDepth_intoArray_le (t := firstType args) (n := 1)
        simp only [size, UInt32.reduceToNat] at harray ⊢
        omega
      · exact Nat.zero_le _
    | _ => exact Nat.zero_le _
  | .array items => by
    have hfirst := arrayDepth_firstType_le items
    have harray := arrayDepth_intoArray_le (t := firstType items) (n := 1)
    simp only [size, type, UInt32.reduceToNat] at harray ⊢
    omega
  | .optional t => Nat.le_succ_of_le (arrayDepth_type_le t)
  | .nullable t => Nat.le_succ_of_le (arrayDepth_type_le t)
  | .union _ | .stringLiteral _ | .all | .unknown | .record | .function => Nat.zero_le _

theorem arrayDepth_firstType_le : ∀ ts : List DocType, (firstType ts).arrayDepth.toNat ≤ sizes ts
  | [] => Nat.zero_le _
  | t :: _ => Nat.le_trans (arrayDepth_type_le t) (Nat.le_add_right _ _)

end

mutual

/-- **The type of an expression is well formed**, if its parts can be counted. -/
theorem wellFormed_type : ∀ t : DocType, t.size < 2 ^ 32 → t.type.WellFormed
  | .name n, h => by
    rw [type]
    rcases namedType_cases n with hn | ⟨m, hn⟩
    · exact hn ▸ (wellFormed_named _).intoArray (by decide)
    · exact hn ▸ wellFormed_named m
  | .application b args, h => by
    cases b with
    | name n =>
      have hargs : sizes args + 2 < 2 ^ 32 := by simp only [size] at h; omega
      rw [type]
      split
      · have hdepth := arrayDepth_firstType_le args
        have hfirst := wellFormed_firstType args (by omega)
        exact hfirst.intoArray (by simp only [UInt32.reduceToNat]; omega)
      · exact ⟨by decide, tableOf_eq_some_iff _, wellFormed_types args (by omega)⟩
    | _ => exact wellFormed_named _
  | .array items, h => by
    have hitems : sizes items + 1 < 2 ^ 32 := h
    have hdepth := arrayDepth_firstType_le items
    have hfirst := wellFormed_firstType items (by omega)
    exact hfirst.intoArray (by simp only [UInt32.reduceToNat]; omega)
  | .optional t, h => (wellFormed_type t (Nat.lt_of_succ_lt h)).intoOptional
  | .nullable t, h => wellFormed_type t (Nat.lt_of_succ_lt h)
  | .union _, _ | .stringLiteral _, _ | .all, _ | .unknown, _ | .record, _ | .function, _ =>
    wellFormed_named _

theorem wellFormed_firstType : ∀ ts : List DocType, sizes ts < 2 ^ 32 → (firstType ts).WellFormed
  | [], _ => wellFormed_named _
  | t :: _, h => wellFormed_type t (Nat.lt_of_le_of_lt (Nat.le_add_right _ _) h)

theorem wellFormed_types : ∀ ts : List DocType, sizes ts < 2 ^ 32 → TypeInfo.AllWellFormed (types ts)
  | [], _ => trivial
  | t :: ts, h => ⟨wellFormed_type t (Nat.lt_of_le_of_lt (Nat.le_add_right _ _) h),
      wellFormed_types ts (Nat.lt_of_le_of_lt (Nat.le_add_left _ _) h)⟩

end

/-! ## What is read, and from how much text -/

/-- The number of marks that part `n` expressions read by this rule, or close their list. -/
def Rule.marks (n : Nat) : Rule → Nat
  | .members | .items | .list _ => n
  | _ => 0

section

variable {rule : Rule} {t : DocType} {ts : List DocType} {s r : List Char}

theorem size_suffixed_le (t : DocType) (s : List Char) :
    (suffixed t s).1.size + (suffixed t s).2.length ≤ t.size + s.length := by
  unfold suffixed
  fun_induction suffixes t s with
  | case1 t s r hs _ t' r' heq ih =>
    rw [heq] at ih
    -- Two more parts, the name `Array` and what it is applied to, for two characters.
    have hlen := length_of_trimStart hs
    simp only [size, sizes, List.length_cons] at hlen ih ⊢
    omega
  | case2 t s r hs _ t' r' heq ih =>
    rw [heq] at ih
    have hlen := length_of_trimStart hs
    simp only [size] at ih ⊢
    omega
  | case3 => exact Nat.le_refl _

/-- **Every part of what is read took a character at least**, and so did every mark. -/
theorem Derives.size_le (h : Derives rule s ts r) :
    sizes ts + rule.marks ts.length + r.length ≤ s.length := by
  induction h with
  | @union _ _ _ t ts _ _ iht ihts =>
    cases ts with
    | nil =>
      simp only [sizes, Rule.marks, List.isEmpty_nil, if_true, List.length_nil] at iht ihts ⊢
      omega
    | cons u us =>
      simp only [sizes, size, Rule.marks, List.isEmpty_cons, Bool.false_eq_true, if_false,
        List.length_cons] at iht ihts ⊢
      omega
  | noMember | noItem => simp [sizes, Rule.marks]
  | member h _ _ iht ihts | item h _ _ iht ihts =>
    have hlt := length_of_tail? h
    simp only [sizes, Rule.marks, List.length_cons] at iht ihts ⊢
    omega
  | unknown h _ =>
    have hlt := length_of_tail? h
    simp only [sizes, size, Rule.marks]
    omega
  | nullable h _ _ iht =>
    have hlt := length_of_tail? h
    simp only [sizes, size, Rule.marks] at iht ⊢
    omega
  | required _ h _ iht =>
    have hlt := length_of_tail? h
    simp only [Rule.marks] at iht ⊢
    omega
  | rest _ _ h _ iht =>
    have hle := ((suffix_of_behind? h).trans (suffix_trimStart _)).length_le
    simp only [Rule.marks] at iht ⊢
    omega
  | @posted _ r₁ _ t _ _ _ _ _ hu iht =>
    have hle := size_suffixed_le t r₁
    simp only [hu, sizes, Rule.marks] at hle iht ⊢
    omega
  | grouped hs _ hr iht =>
    have hlt := length_of_trimStart hs
    have hclose := length_of_tail? hr
    simp only [Rule.marks] at iht ⊢
    omega
  | all hs =>
    have hlt := length_of_trimStart hs
    simp only [sizes, size, Rule.marks]
    omega
  | @quoted _ s₁ r q _ hs _ hr =>
    have hlt := length_of_trimStart hs
    have hquote := (List.dropWhile_suffix (l := s₁) (· != q)).length_le
    rw [hr, List.length_cons] at hquote
    simp only [sizes, size, Rule.marks]
    omega
  | record hs hr =>
    have hlt := length_of_trimStart hs
    have hclosed := (suffix_of_closed? hr).length_le
    simp only [sizes, size, Rule.marks]
    omega
  | array hs _ ihts =>
    have hlt := length_of_trimStart hs
    simp only [sizes, size, Rule.marks] at ihts ⊢
    omega
  | @table _ s₁ hs =>
    have hlt := length_of_trimStart (r := 'b' :: ':' :: '/' :: s₁) hs
    have hpath := (List.dropWhile_suffix (l := s₁) isTableChar).length_le
    simp only [sizes, size, Rule.marks, List.length_cons] at hlt ⊢
    omega
  | @named s _ _ _ _ hs _ _ _ iht =>
    have hle := (suffix_trimStart s).length_le
    rw [hs] at hle
    simp only [Rule.marks] at iht ⊢
    omega
  | function hn hopen hr _ =>
    have hname := length_of_dottedName hn
    have hsign := length_of_tail? (tail?_of_signature? hopen)
    have hclosed := (suffix_of_closed? hr).length_le
    simp only [sizes, size, Rule.marks]
    omega
  | returning hn hopen hr hcolon ht _ =>
    have hname := length_of_dottedName hn
    have hsign := length_of_tail? (tail?_of_signature? hopen)
    have hclosed := (suffix_of_closed? hr).length_le
    have hbehind := length_of_tail? hcolon
    have hrest := ht.suffix.length_le
    simp only [sizes, size, Rule.marks]
    omega
  | name hn =>
    have hname := length_of_dottedName hn
    simp only [sizes, size, Rule.marks]
    omega
  | application hn _ _ hangle _ ihts =>
    have hname := length_of_dottedName hn
    have hopen := length_of_angle? hangle
    simp only [sizes, size, Rule.marks] at ihts ⊢
    omega
  | list _ _ _ hr iht ihts =>
    have hclose := length_of_tail? hr
    simp only [sizes, Rule.marks, List.length_cons] at iht ihts ⊢
    omega

theorem not_mem_of_suffix {c : Char} (hc : c ∉ s) (h : r <:+ s) : c ∉ r := fun hmem => hc (h.subset hmem)

theorem optional_firstType (h : ∀ t ∈ ts, t.type.optional = false) :
    (firstType ts).optional = false := by
  cases ts with
  | nil => rfl
  | cons t ts => exact h t List.mem_cons_self

theorem optional_application {n : String} (h : ∀ t ∈ ts, t.type.optional = false) :
    (type (.application (.name n) ts)).optional = false := by
  rw [type]
  split
  · rw [optional_intoArray, optional_firstType h]
  · rfl

theorem optional_namedType (n : String) : (namedType n).optional = false := by
  rcases namedType_cases n with hn | ⟨m, hn⟩
  · exact hn ▸ rfl
  · exact hn ▸ rfl

theorem optional_suffixed (ht : t.type.optional = false) (hs : '=' ∉ s) :
    (suffixed t s).1.type.optional = false := by
  unfold suffixed
  fun_induction suffixes t s with
  | case1 t s r hr _ t' r' heq ih =>
    rw [heq] at ih
    have hsuffix := (List.suffix_cons _ _).trans (suffix_of_trimStart hr)
    exact ih (optional_application (List.forall_mem_singleton.2 ht)) (not_mem_of_suffix hs hsuffix)
  | case2 t s r hr _ t' r' heq ih =>
    have hmem : '=' ∈ trimStart s := hr ▸ List.mem_cons_self
    exact absurd ((suffix_trimStart s).subset hmem) hs
  | case3 => exact ht

/-- **Without the mark for it nothing is optional.** -/
theorem Derives.optional_eq_false (h : Derives rule s ts r) (hs : '=' ∉ s) :
    ∀ t ∈ ts, t.type.optional = false := by
  induction h with
  | @union _ _ _ t ts _ _ iht _ =>
    cases ts with
    | nil => exact iht hs
    | cons u us => exact List.forall_mem_singleton.2 rfl
  | noMember | noItem => exact List.forall_mem_nil _
  | member h ht _ iht ihts | item h ht _ iht ihts =>
    have hs₁ := not_mem_of_suffix hs (suffix_of_tail? h)
    exact List.forall_mem_cons.2 ⟨iht hs₁ _ List.mem_cons_self, ihts (not_mem_of_suffix hs₁ ht.suffix)⟩
  | unknown | all | quoted | record | table | function | returning =>
    exact List.forall_mem_singleton.2 rfl
  | nullable h _ _ iht =>
    have hreq := iht (not_mem_of_suffix hs (suffix_of_tail? h)) _ List.mem_cons_self
    exact List.forall_mem_singleton.2 hreq
  | required _ h _ iht => exact iht (not_mem_of_suffix hs (suffix_of_tail? h))
  | rest _ _ h _ iht =>
    exact iht (not_mem_of_suffix hs ((suffix_of_behind? h).trans (suffix_trimStart _)))
  | @posted _ r₁ _ t _ _ _ _ ht hu iht =>
    have hreq := optional_suffixed (iht hs t List.mem_cons_self) (not_mem_of_suffix hs ht.suffix)
    rw [hu] at hreq
    exact List.forall_mem_singleton.2 hreq
  | grouped h _ _ iht => exact iht (not_mem_of_suffix hs (suffix_of_trimStart h))
  | array h _ ihts =>
    have hreq := optional_firstType (ihts (not_mem_of_suffix hs (suffix_of_trimStart h)))
    exact List.forall_mem_singleton.2 (optional_intoArray.trans hreq)
  | named h _ _ _ iht => exact iht (not_mem_of_suffix hs (h ▸ suffix_trimStart _))
  | name => exact List.forall_mem_singleton.2 (optional_namedType _)
  | application hn _ _ hangle _ ihts =>
    have hsuffix := (suffix_of_angle? hangle).trans (suffix_of_dottedName hn)
    have hreq := ihts (not_mem_of_suffix hs hsuffix)
    exact List.forall_mem_singleton.2 (optional_application hreq)
  | list _ ht _ _ iht ihts =>
    exact List.forall_mem_cons.2
      ⟨iht hs _ List.mem_cons_self, ihts (not_mem_of_suffix hs ht.suffix)⟩

theorem size_le_of_parse? {expr : String} (h : parse? expr = some t) : t.size ≤ expr.length := by
  obtain ⟨r, hread, -⟩ := parse?_eq_some_iff.1 h
  have hsize := hread.size_le
  simp only [sizes, String.length_toList] at hsize
  omega

end

end DocType

namespace TypeInfo

open DocType

section

variable {expr : String}

theorem arrayDepth_ofDoc_le (expr : String) : (ofDoc expr).arrayDepth.toNat ≤ expr.length := by
  unfold ofDoc
  split
  · rename_i t h
    exact Nat.le_trans (arrayDepth_type_le t) (size_le_of_parse? h)
  · exact Nat.zero_le _

/-- **The type of a doc expression is well formed.** -/
theorem wellFormed_ofDoc (h : expr.length < 2 ^ 32) : (ofDoc expr).WellFormed := by
  unfold ofDoc
  split
  · rename_i t ht
    exact wellFormed_type t (Nat.lt_of_le_of_lt (size_le_of_parse? ht) h)
  · exact wellFormed_named _

theorem optional_ofDoc (h : '=' ∉ expr.toList) : (ofDoc expr).optional = false := by
  unfold ofDoc
  split
  · rename_i t ht
    obtain ⟨r, hread, -⟩ := parse?_eq_some_iff.1 ht
    exact hread.optional_eq_false h t List.mem_cons_self
  · rfl

end

end TypeInfo

/-! ## Types of codes -/

namespace PlatformType

open Text TypeInfo

/-- The type is well formed, has at most `n` array levels and is not optional. -/
structure Plain (n : Nat) (t : TypeInfo) : Prop where
  wellFormed : t.WellFormed
  depth : t.arrayDepth.toNat ≤ n
  required : t.optional = false

section

variable {t : TypeInfo} {m n : Nat}

theorem Plain.mono (h : Plain m t) (hmn : m ≤ n) : Plain n t :=
  ⟨h.wellFormed, Nat.le_trans h.depth hmn, h.required⟩

theorem Plain.named (name : String) : Plain n (.named name) :=
  ⟨wellFormed_named name, Nat.zero_le _, rfl⟩

theorem Plain.ofDoc {expr : String} (hlen : expr.length ≤ n) (hn : n < 2 ^ 32)
    (hmark : '=' ∉ expr.toList) : Plain n (.ofDoc expr) :=
  ⟨wellFormed_ofDoc (Nat.lt_of_le_of_lt hlen hn), Nat.le_trans (arrayDepth_ofDoc_le expr) hlen,
    optional_ofDoc hmark⟩

theorem Plain.intoArray (h : Plain m t) (hn : m + n < 2 ^ 32) :
    Plain (m + n) (t.intoArray n.toUInt32) := by
  have hk : n.toUInt32.toNat = n := Nat.mod_eq_of_lt (by omega)
  have hdepth := h.depth
  have hle := arrayDepth_intoArray_le (t := t) (n := n.toUInt32)
  exact ⟨h.wellFormed.intoArray (by omega), by omega, optional_intoArray.trans h.required⟩

end

/-- The expressions of the well-known classes are short and have no mark for an optional value. -/
theorem length_le_of_mem_builtins : ∀ e ∈ builtins, e.2.length ≤ 32 ∧ '=' ∉ e.2.toList := by
  decide

theorem plain_classType (code : List Char) (aliases : AliasTable) :
    Plain 32 (classType code aliases) := by
  unfold classType
  extract_lets name
  split
  · rename_i expr hfind
    obtain ⟨hlen, hmark⟩ := length_le_of_mem_builtins _ (List.mem_of_find?_eq_some hfind)
    exact .ofDoc hlen (by decide) hmark
  · split
    · exact .named _
    · exact .named _

theorem length_le_of_primitive? {code : List Char} {name : String}
    (h : primitive? code = some name) : name.length ≤ 32 ∧ '=' ∉ name.toList := by
  unfold primitive? at h
  repeat' split at h
  all_goals cases h
  all_goals decide

theorem plain_elementType (code : List Char) : Plain 32 (elementType code) := by
  unfold elementType
  extract_lets base
  split
  · rename_i name h
    obtain ⟨hlen, hmark⟩ := length_le_of_primitive? h
    exact .ofDoc hlen (by decide) hmark
  · exact .named _

theorem length_of_dropTail? {tail s r : List Char} (h : dropTail? tail s = some r) :
    r.length ≤ s.length := by
  obtain ⟨-, hr⟩ := Option.ite_none_right_eq_some.1 h
  exact Option.some.inj hr ▸ (List.take_prefix _ _).length_le

/-- **The type of a code is well formed** and never optional, whatever the aliases are. -/
theorem plain_decodeChars (aliases : AliasTable) (code : List Char)
    (h : code.length + 32 < 2 ^ 32) : Plain (code.length + 32) (decodeChars aliases code) := by
  fun_induction decodeChars aliases code with
  | case1 => exact .named _
  | case2 code r object hcode depth hobject ih =>
    -- The brackets and the class stand side by side, so their levels share the length of the code.
    have htrim := length_trim_le code
    have hparts : depth.length + (('[' :: r).dropWhile (· == '[')).length = ('[' :: r).length := by
      rw [← List.length_append, List.takeWhile_append_dropWhile]
    have hclass := length_dropSemicolon_le object
    rw [hcode] at htrim
    rw [hobject, List.length_cons] at hparts
    refine ((ih (by omega)).intoArray (n := depth.length) ?_).mono ?_ <;> omega
  | case3 code r hcode depth hno =>
    have htrim := length_trim_le code
    have hbrackets : depth.length ≤ _ := (List.takeWhile_prefix _).length_le
    rw [hcode] at htrim
    refine ((plain_elementType _).intoArray (n := depth.length) ?_).mono ?_ <;> omega
  | case4 code r object hobject hcode _ ih =>
    have htrim := length_trim_le code
    have hclass := length_of_dropTail? hobject
    rw [hcode, List.length_cons] at htrim
    exact (ih (by omega)).mono (by omega)
  | case5 => exact (plain_classType _ aliases).mono (Nat.le_add_left _ _)
  | case6 code c r _ _ _ name hname =>
    obtain ⟨hlen, hmark⟩ := length_le_of_primitive? hname
    exact .ofDoc (Nat.le_trans hlen (Nat.le_add_left _ _)) h hmark
  | case7 => exact (plain_classType _ aliases).mono (Nat.le_add_left _ _)

end PlatformType

end ScriptAtlas
