/-
Codes of the platform are decoded part by part. Behind the opening brackets of an
array code the decoder does not start again: it looks for a class name in its
wrapping and for a letter there by itself, and takes anything else for a name. On a
letter and on a wrapped name both ways agree (`behindBrackets_eq`), so the type of
an array code is that of its element in as many levels as there are brackets.

What is wrapped may be any text, also another code. Its levels are then added to
those around it, as far as they can be counted.
-/
import ScriptAtlas.Proofs.TextLaws
import ScriptAtlas.Proofs.TypeForm

namespace ScriptAtlas

open Text

/-! ## Array levels -/

namespace TypeInfo

@[simp] theorem intoArray_zero (t : TypeInfo) : t.intoArray 0 = t := if_pos rfl

/-- Levels around levels add up, as long as they can be counted. -/
theorem intoArray_intoArray (t : TypeInfo) {m n : UInt32} (h : m.toNat + n.toNat < 2 ^ 32) :
    (t.intoArray m).intoArray n = t.intoArray (m + n) := by
  by_cases hm : m = 0
  · rw [hm, intoArray_zero, UInt32.zero_add]
  · by_cases hn : n = 0
    · rw [hn, intoArray_zero, UInt32.add_zero]
    · have hsum : m + n ≠ 0 := by
        intro hzero
        have hsum := congrArg UInt32.toNat hzero
        rw [UInt32.toNat_add, Nat.mod_eq_of_lt h, UInt32.toNat_zero] at hsum
        exact hm (UInt32.toNat_inj.1 (by rw [UInt32.toNat_zero]; omega))
      simp only [intoArray, if_neg hm, if_neg hn, if_neg hsum, UInt32.add_assoc]

end TypeInfo

namespace PlatformType

variable {aliases : AliasTable} {code object : List Char}

/-! ## One step of the decoder -/

/-- What a code stands for that has no blanks around it. -/
def decodeTrimmed (t : AliasTable) : List Char → TypeInfo
  | [] => .any
  | c :: r =>
    if c = '[' then
      let depth := (c :: r).takeWhile (· == '[')
      match (c :: r).dropWhile (· == '[') with
      | 'L' :: object => (decodeChars t (dropSemicolon object)).intoArray depth.length.toUInt32
      | rest => (elementType rest).intoArray depth.length.toUInt32
    else
      match dropTail? [';'] r with
      | some object => if c = 'L' then decodeChars t object else classType (c :: r) t
      | none =>
        match primitive? (c :: r) with
        | some name => .ofDoc name
        | none => classType (c :: r) t

theorem decodeChars_eq (t : AliasTable) (code : List Char) :
    decodeChars t code = decodeTrimmed t (trim code) := by
  rw [decodeChars.eq_def]
  generalize trim code = s
  cases s with
  | nil => rfl
  | cons c r =>
    dsimp only [decodeTrimmed]
    congr
    · generalize (c :: r).dropWhile (· == '[') = rest
      split
      · rfl
      · rename_i h
        split
        · rename_i object
          exact absurd rfl (h object)
        · rfl
    · cases dropTail? [';'] r <;> rfl

/-- What stands behind the brackets of an array code. -/
def behindBrackets (t : AliasTable) : List Char → TypeInfo
  | 'L' :: object => decodeChars t (dropSemicolon object)
  | rest => elementType rest

theorem trimmed_brackets (n : Nat) : Trimmed (List.replicate n '[') := by
  constructor <;> intro c hc
  · rw [List.eq_of_mem_replicate (List.mem_of_mem_head? hc)]
    rfl
  · rw [List.eq_of_mem_replicate (List.mem_of_mem_getLast? hc)]
    rfl

/-- **An array code** stands for what is behind its brackets, in one level for each of them. -/
theorem decodeChars_brackets (hcode : Trimmed code) (hopen : '[' ∉ code.head?) (n : Nat) :
    decodeChars aliases (List.replicate (n + 1) '[' ++ code) =
      (behindBrackets aliases code).intoArray (n + 1).toUInt32 := by
  have hall : ∀ c ∈ List.replicate (n + 1) '[', (c == '[') = true := by simp
  have hstop : ∀ c ∈ code.head?, (c == '[') = false := fun c hc =>
    beq_eq_false_iff_ne.2 fun heq => hopen (heq ▸ hc)
  have htake := takeWhile_run hall hstop
  have hdrop := dropWhile_run hall hstop
  rw [decodeChars_eq, ((trimmed_brackets (n + 1)).append hcode).trim_eq]
  rw [List.replicate_succ, List.cons_append] at htake hdrop ⊢
  simp only [decodeTrimmed, if_true, htake, hdrop, List.length_cons, List.length_replicate]
  unfold behindBrackets
  split <;> rfl

/-! ## Elements -/

/-- The letters that stand for types. -/
def letters : List Char := ['I', 'D', 'F', 'J', 'S', 'Z', 'B', 'C', 'V']

/-- The code of an element of an array: a letter, or a name in its wrapping. -/
inductive IsElement : List Char → Prop
  | letter {c : Char} (h : c ∈ letters) : IsElement [c]
  | wrapped (name : List Char) : IsElement ('L' :: (name ++ [';']))

theorem trimmed_wrapped (name : List Char) : Trimmed ('L' :: (name ++ [';'])) := by
  constructor
  · intro c hc
    obtain rfl : 'L' = c := Option.some.inj hc
    rfl
  · intro c hc
    rw [← List.cons_append, List.getLast?_concat] at hc
    obtain rfl : ';' = c := Option.some.inj hc
    rfl

theorem decodeChars_wrapped (name : List Char) :
    decodeChars aliases ('L' :: (name ++ [';'])) = decodeChars aliases name := by
  rw [decodeChars_eq, (trimmed_wrapped name).trim_eq]
  simp [decodeTrimmed, dropTail?_append]

/-- A letter is neither blank nor a sign of its own, and has a type. -/
theorem letter_spec {c : Char} (h : c ∈ letters) : isBlank c = false ∧ c ≠ '[' ∧ c ≠ 'L' ∧ c ≠ ';' ∧
    ∃ name, primitive? [c] = some name := by
  have hall : letters.all (fun c => !isBlank c && c != '[' && c != 'L' && c != ';' &&
      (primitive? [c]).isSome) = true := by
    decide
  simpa [Option.isSome_iff_exists, and_assoc] using List.all_eq_true.1 hall c h

theorem trimmed_letter {c : Char} (h : c ∈ letters) : Trimmed [c] := by
  have hblank := (letter_spec h).1
  constructor <;> intro d hd <;> obtain rfl : c = d := Option.some.inj hd <;> exact hblank

/-- **Behind brackets as without them:** an element is decoded there as it is by itself. -/
theorem behindBrackets_eq (h : IsElement code) :
    behindBrackets aliases code = decodeChars aliases code := by
  cases h with
  | @letter c h =>
    obtain ⟨-, hopen, hwrap, hend, name, hname⟩ := letter_spec h
    have htail : dropTail? [';'] [c] = none := by
      refine Option.eq_none_iff_forall_not_mem.2 fun front hfront => hend ?_
      simpa using congrArg List.getLast? (dropTail?_eq_some_iff.1 hfront)
    have hbehind : behindBrackets aliases [c] = .ofDoc name := by
      rw [behindBrackets]
      · simp [elementType, dropSemicolon, htail, hname]
      · rintro object ⟨⟩
        exact hwrap rfl
    rw [hbehind, decodeChars_eq, (trimmed_letter h).trim_eq]
    simp [decodeTrimmed, hopen, dropTail?, hname]
  | wrapped name =>
    rw [decodeChars_wrapped]
    simp [behindBrackets, dropSemicolon, dropTail?_append]

theorem IsElement.trimmed (h : IsElement code) : Trimmed code := by
  cases h with
  | letter h => exact trimmed_letter h
  | wrapped name => exact trimmed_wrapped name

theorem IsElement.not_open (h : IsElement code) : '[' ∉ code.head? := by
  intro hopen
  cases h with
  | letter h => exact (letter_spec h).2.1 (Option.some.inj hopen)
  | wrapped name => exact absurd (Option.some.inj hopen) (by decide)

/-- An element is decoded in brackets as it is by itself, in one level for each bracket. -/
theorem decodeChars_array (h : IsElement code) (n : Nat) :
    decodeChars aliases (List.replicate n '[' ++ code) =
      (decodeChars aliases code).intoArray n.toUInt32 := by
  cases n with
  | zero => exact (TypeInfo.intoArray_zero _).symm
  | succ n => rw [decodeChars_brackets h.trimmed h.not_open, behindBrackets_eq h]

/-! ## Codes in codes -/

/-- The opening brackets of so many array levels. -/
def brackets (n : Nat) : String := String.ofList (List.replicate n '[')

/-- The name in its wrapping. -/
def wrap (name : String) : String := "L" ++ name ++ ";"

/-- The name in one wrapping for each of the numbers, with so many brackets before it. The first number
is that of the outermost. -/
def nest (name : String) : List Nat → String
  | [] => name
  | n :: ns => brackets n ++ wrap (nest name ns)

/-- The number of brackets of all wrappings. -/
def levels : List Nat → Nat
  | [] => 0
  | n :: ns => n + levels ns

theorem toList_wrap (name : String) : (wrap name).toList = 'L' :: (name.toList ++ [';']) := by
  simp [wrap]

theorem decode_brackets (n : Nat) {code : String} (h : IsElement code.toList) :
    decode (brackets n ++ code) aliases = (decode code aliases).intoArray n.toUInt32 := by
  rw [decode, brackets, String.toList_append, String.toList_ofList, decodeChars_array h, decode]

theorem decode_wrap (name : String) : decode (wrap name) aliases = decode name aliases := by
  rw [decode, toList_wrap, decodeChars_wrapped, decode]

theorem isElement_wrap (name : String) : IsElement (wrap name).toList :=
  toList_wrap name ▸ .wrapped name.toList

/-- Wrapped codes add their levels to those of what they wrap. -/
theorem decode_nest (name : String) {ns : List Nat} (h : levels ns < 2 ^ 32) :
    decode (nest name ns) aliases = (decode name aliases).intoArray (levels ns).toUInt32 := by
  induction ns with
  | nil => exact (TypeInfo.intoArray_zero _).symm
  | cons n ns ih =>
    rw [levels] at h
    have hcount : (levels ns).toUInt32.toNat + n.toUInt32.toNat < 2 ^ 32 := by
      have hns : (levels ns).toUInt32.toNat ≤ levels ns := Nat.mod_le _ _
      have hn : n.toUInt32.toNat ≤ n := Nat.mod_le _ _
      omega
    rw [nest, decode_brackets n (isElement_wrap _), decode_wrap, ih (by omega),
      TypeInfo.intoArray_intoArray _ hcount, levels, Nat.add_comm n]
    simp

/-- **Codes are decoded part by part.** A letter or a wrapped name behind brackets stands for what it
stands for by itself, in as many array levels as there are brackets. A wrapped name stands for what the
name stands for, whatever its text; so a code in a code has the levels of both, to any depth, as long as
a word of 32 bits can count them. -/
theorem codes_decoded_by_parts (aliases : AliasTable) :
    (∀ n code, IsElement code.toList →
      decode (brackets n ++ code) aliases = (decode code aliases).intoArray n.toUInt32) ∧
    (∀ name, decode (wrap name) aliases = decode name aliases) ∧
    ∀ name ns, levels ns < 2 ^ 32 →
      decode (nest name ns) aliases = (decode name aliases).intoArray (levels ns).toUInt32 :=
  ⟨fun n _ h => decode_brackets n h, decode_wrap, fun name _ h => decode_nest name h⟩

/-- An array of arrays of lists, which are arrays themselves. -/
theorem wrappedLists_decoded :
    (IsElement "Ljava.util.List;".toList ∧ levels [2, 1] < 2 ^ 32) ∧
      decode "[[Ljava.util.List;" {} = (decode "java.util.List" {}).intoArray 2 ∧
      decode "[[L[Ljava.util.List;;" {} = (decode "java.util.List" {}).intoArray 3 := by
  obtain ⟨hbrackets, hwrap, hnest⟩ := codes_decoded_by_parts {}
  have helement : IsElement "Ljava.util.List;".toList := isElement_wrap "java.util.List"
  refine ⟨⟨helement, by decide⟩, ?_, ?_⟩
  · rw [← hwrap "java.util.List"]
    exact hbrackets 2 "Ljava.util.List;" helement
  · exact hnest "java.util.List" [2, 1] (by decide)

end PlatformType

end ScriptAtlas
