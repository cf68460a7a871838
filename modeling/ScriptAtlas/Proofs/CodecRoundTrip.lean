/-
What is written to the cache is read back. A codec is faithful if the bytes of
a value are read as that value, whatever follows them. The codecs for numbers,
choices, texts and lists are faithful, codecs put together from faithful ones
are, and so the record of an extraction is read as it was written.
-/
import ScriptAtlas.Cache.Record

namespace ScriptAtlas.Codec

/-- The bytes of a value are read as that value, and what follows them is handed on. -/
structure Faithful {α : Type} (c : Codec α) : Prop where
  read_write : ∀ {a : α} {bs : Bytes} (rest : Bytes),
    c.write a = some bs → c.read (bs ++ rest) = some (a, rest)

section

variable {α β : Type} {c : Codec α} {d : Codec β}

/-! ## Numbers -/

theorem readLittleEndian_append {size n : Nat} (rest : Bytes) (h : n < Nat.pow 256 size) :
    readLittleEndian size (littleEndian size n ++ rest) = some (n, rest) := by
  induction size generalizing n with
  | zero =>
    obtain rfl : n = 0 := by simp at h; omega
    rfl
  | succ size ih =>
    have hdiv : n / 256 < Nat.pow 256 size :=
      Nat.div_lt_of_lt_mul (by rw [Nat.mul_comm]; exact h)
    rw [littleEndian, List.cons_append, readLittleEndian, ih hdiv]
    have hbyte : (UInt8.ofNat n).toNat + 256 * (n / 256) = n := by
      rw [UInt8.toNat_ofNat']
      omega
    simp only [Option.map_some, hbyte]

theorem faithful_nat (size : Nat) : Faithful (nat size) := by
  constructor
  intro n bs rest h
  simp only [nat, Option.ite_none_right_eq_some, Option.some.injEq] at h
  obtain ⟨hlt, rfl⟩ := h
  exact readLittleEndian_append rest hlt

theorem Faithful.via (h : Faithful c) {make : α → β} {unmake : β → α}
    (hmake : ∀ b, make (unmake b) = b) : Faithful (c.via make unmake) := by
  constructor
  intro b bs rest hb
  simp only [Codec.via] at hb ⊢
  rw [h.read_write rest hb]
  simp only [Option.map_some, hmake]

theorem faithful_word16 : Faithful word16 := (faithful_nat 2).via fun _ => UInt16.ofNat_toNat

theorem faithful_word32 : Faithful word32 := (faithful_nat 4).via fun _ => UInt32.ofNat_toNat

theorem faithful_word64 : Faithful word64 := (faithful_nat 8).via fun _ => UInt64.ofNat_toNat

/-! ## Choices -/

theorem faithful_flag : Faithful flag := by
  constructor
  intro b bs rest h
  cases b <;> cases h <;> rfl

theorem Faithful.pair (hc : Faithful c) (hd : Faithful d) : Faithful (c.pair d) := by
  constructor
  intro p bs rest h
  simp only [Codec.pair, Option.pure_def, Option.bind_eq_bind, Option.bind_eq_some_iff,
    Option.some.injEq] at h
  obtain ⟨b₁, h₁, b₂, h₂, rfl⟩ := h
  simp only [Codec.pair, List.append_assoc, hc.read_write _ h₁, hd.read_write _ h₂,
    Option.bind_eq_bind, Option.bind_some, Option.pure_def]

theorem Faithful.optional (hc : Faithful c) : Faithful c.optional := by
  constructor
  intro o bs rest h
  cases o with
  | none =>
    cases h
    rfl
  | some a =>
    simp only [Codec.optional, Option.pure_def, Option.bind_eq_bind, Option.bind_eq_some_iff,
      Option.some.injEq] at h
    obtain ⟨b₁, h₁, b₂, h₂, rfl⟩ := h
    simp only [Codec.optional, List.append_assoc, faithful_flag.read_write _ h₁, hc.read_write _ h₂,
      Option.bind_eq_bind, Option.bind_some, Option.pure_def, if_true]

/-! ## Texts and lists -/

theorem faithful_bytes : Faithful bytes := by
  constructor
  intro bs form rest h
  simp only [bytes, Option.pure_def, Option.bind_eq_bind, Option.bind_eq_some_iff,
    Option.some.injEq] at h
  obtain ⟨size, hsize, rfl⟩ := h
  simp only [bytes, List.append_assoc, (faithful_nat 8).read_write _ hsize, Option.bind_eq_bind,
    Option.bind_some]
  simp

theorem toList_loop (b : ByteArray) (i : Nat) (r : Bytes) :
    ByteArray.toList.loop b i r = r.reverse ++ b.data.toList.drop i := by
  fun_induction ByteArray.toList.loop b i r with
  | case1 i r h ih =>
    have hi : i < b.data.toList.length := h
    have hget : b.get! i = b.data.toList[i] := by
      simp [ByteArray.get!, getElem!_pos, h]
    rw [ih, List.drop_eq_getElem_cons hi, hget]
    simp
  | case2 i r h =>
    have hi : b.data.toList.length ≤ i := Nat.le_of_not_lt h
    rw [List.drop_eq_nil_of_le hi, List.append_nil]

theorem toByteArray_toList (b : ByteArray) : b.toList.toByteArray = b := by
  have hlist : b.toList = b.data.toList := toList_loop b 0 []
  apply ByteArray.ext
  apply Array.toList_inj.1
  rw [List.toList_data_toByteArray, hlist]

theorem faithful_text : Faithful text := by
  constructor
  intro s form rest h
  have hread : bytes.read (form ++ rest) = some (s.toUTF8.toList, rest) := faithful_bytes.read_write rest h
  have hvalid : String.fromUTF8? s.toUTF8.toList.toByteArray = some s := by
    rw [toByteArray_toList, String.fromUTF8?]
    exact dif_pos s.isValidUTF8
  simp only [text, hread, hvalid, Option.bind_eq_bind, Option.bind_some, Option.pure_def]

/-- Members of which each is read back are read back together. Only members of at most `size` bytes
need to be. -/
theorem readAll_append {write : α → Option Bytes} {read : Bytes → Option (α × Bytes)} {as : List α}
    {size : Nat} (h : ∀ a ∈ as, ∀ {bs} rest, write a = some bs → bs.length ≤ size →
      read (bs ++ rest) = some (a, rest))
    {bs : Bytes} (rest : Bytes) (hw : writeAll write as = some bs) (hsize : bs.length ≤ size) :
    readAll read as.length (bs ++ rest) = some (as, rest) := by
  induction as generalizing bs with
  | nil =>
    cases hw
    rfl
  | cons a as ih =>
    simp only [writeAll, Option.pure_def, Option.bind_eq_bind, Option.bind_eq_some_iff,
      Option.some.injEq] at hw
    obtain ⟨b₁, h₁, b₂, h₂, rfl⟩ := hw
    rw [List.length_append] at hsize
    have ha := h a (by simp) (b₂ ++ rest) h₁ (by omega)
    have has := ih (fun a' ha' => h a' (by simp [ha'])) h₂ (by omega)
    simp only [List.length_cons, readAll, List.append_assoc, ha, has, Option.bind_eq_bind,
      Option.bind_some, Option.pure_def]

theorem Faithful.list (hc : Faithful c) : Faithful c.list := by
  constructor
  intro as bs rest h
  simp only [Codec.list, writeList, Option.pure_def, Option.bind_eq_bind, Option.bind_eq_some_iff,
    Option.some.injEq] at h
  obtain ⟨b₁, h₁, b₂, h₂, rfl⟩ := h
  simp only [Codec.list, readList, List.append_assoc, (faithful_nat 8).read_write _ h₁,
    Option.bind_eq_bind, Option.bind_some]
  exact readAll_append (fun _ _ _ rest hw _ => hc.read_write rest hw) rest h₂ (Nat.le_refl _)

/-! ## Stamps -/

theorem write_time (t : Int) : time.write t =
    if t < 0 ∨ secondsBound ≤ t.toNat / nanosPerSecond then none
    else ((nat 8).pair (nat 4)).write (t.toNat / nanosPerSecond, t.toNat % nanosPerSecond) := rfl

theorem read_time (bs : Bytes) : time.read bs =
    (((nat 8).pair (nat 4)).read bs).bind fun x =>
      if (x.1.1 * nanosPerSecond + x.1.2) / nanosPerSecond < secondsBound then
        some (((x.1.1 * nanosPerSecond + x.1.2 : Nat) : Int), x.2) else none := rfl

theorem faithful_time : Faithful time := by
  constructor
  intro t bs rest h
  rw [write_time] at h
  rw [read_time]
  -- the argument does not depend on how long a second is, or on the last one
  generalize nanosPerSecond = second, secondsBound = bound at h ⊢
  simp only [Option.ite_none_left_eq_some, not_or] at h
  obtain ⟨⟨hneg, hbound⟩, h⟩ := h
  have hn : t.toNat / second * second + t.toNat % second = t.toNat := by
    rw [Nat.mul_comm, Nat.div_add_mod]
  have ht : (t.toNat : Int) = t := Int.toNat_of_nonneg (Int.not_lt.1 hneg)
  rw [((faithful_nat 8).pair (faithful_nat 4)).read_write rest h, Option.bind_some]
  simp only [hn, if_pos (Nat.lt_of_not_le hbound), ht]

theorem faithful_stamp : Faithful stamp := (faithful_time.pair faithful_word64).via fun _ => rfl

/-! ## Types -/

theorem writeTypes_eq (ts : List TypeInfo) : writeTypes ts = writeAll writeType ts := by
  induction ts with
  | nil => rfl
  | cons t ts ih => rw [writeTypes, writeAll, ih]

theorem length_of_write_text {s : String} {bs : Bytes} (h : text.write s = some bs) : 0 < bs.length := by
  simp only [text, bytes, nat, Option.pure_def, Option.bind_eq_bind, Option.bind_eq_some_iff,
    Option.ite_none_right_eq_some, Option.some.injEq] at h
  obtain ⟨_, ⟨-, rfl⟩, rfl⟩ := h
  simp [littleEndian]

/-- The type is read back by a reader that looks as many levels deep as it has bytes. -/
def ReadBack (t : TypeInfo) : Prop :=
  ∀ {bs depth} rest, writeType t = some bs → bs.length ≤ depth →
    readType depth (bs ++ rest) = some (t, rest)

/-- The name of a type takes a byte at least, so its arguments have fewer bytes than it has. -/
theorem readBack_mk {name : String} {isOptional isArray : Bool} {depth : UInt32} {args : List TypeInfo}
    {table : Option String} (h : ∀ t ∈ args, ReadBack t) :
    ReadBack ⟨name, isOptional, isArray, depth, args, table⟩ := by
  intro bs fuel rest hw hfuel
  simp only [writeType, writeTypes_eq, Option.pure_def, Option.bind_eq_bind, Option.bind_eq_some_iff,
    Option.some.injEq] at hw
  obtain ⟨b₁, h₁, b₂, h₂, b₃, h₃, b₄, h₄, b₅, h₅, b₆, h₆, b₇, h₇, rfl⟩ := hw
  have hpos := length_of_write_text h₁
  simp only [List.length_append] at hfuel
  obtain ⟨fuel, rfl⟩ : ∃ n, fuel = n + 1 := ⟨fuel - 1, by omega⟩
  have hargs : readAll (readType fuel) args.length (b₆ ++ (b₇ ++ rest)) = some (args, b₇ ++ rest) :=
    readAll_append (fun t ht _ rest hw hlen => h t ht rest hw hlen) (b₇ ++ rest) h₆ (by omega)
  simp only [readType, readList, List.append_assoc, faithful_text.read_write _ h₁,
    faithful_flag.read_write _ h₂, faithful_flag.read_write _ h₃, faithful_word32.read_write _ h₄,
    (faithful_nat 8).read_write _ h₅, hargs, faithful_text.optional.read_write _ h₇,
    Option.bind_eq_bind, Option.bind_some, Option.pure_def]

mutual

theorem readBack : (t : TypeInfo) → ReadBack t
  | ⟨_, _, _, _, args, _⟩ => readBack_mk (readBack_all args)

theorem readBack_all : (ts : List TypeInfo) → ∀ t ∈ ts, ReadBack t
  | [] => nofun
  | t :: ts => List.forall_mem_cons.2 ⟨readBack t, readBack_all ts⟩

end

theorem faithful_type : Faithful type := by
  constructor
  intro t bs rest h
  exact readBack t rest h (by simp)

/-! ## Declarations -/

theorem faithful_location : Faithful location :=
  (faithful_text.pair (faithful_word32.pair faithful_word32)).via fun _ => rfl

theorem faithful_param : Faithful param :=
  (faithful_text.pair (faithful_type.pair (faithful_text.pair faithful_flag))).via fun _ => rfl

theorem faithful_function : Faithful function :=
  (faithful_text.pair (faithful_param.list.pair (faithful_type.pair
    (faithful_text.pair faithful_location.optional)))).via fun _ => rfl

theorem faithful_variableOf : Faithful variableOf :=
  (faithful_text.pair (faithful_type.pair (faithful_text.pair
    (faithful_text.optional.pair faithful_location.optional)))).via fun _ => rfl

theorem faithful_classOf : Faithful classOf :=
  (faithful_text.pair (faithful_text.pair (faithful_param.list.pair (faithful_function.list.pair
    (faithful_variableOf.list.pair (faithful_text.optional.pair faithful_location.optional)))))).via
    fun _ => rfl

theorem faithful_declarations : Faithful declarations :=
  (faithful_function.list.pair (faithful_variableOf.list.pair faithful_classOf.list)).via fun _ => rfl

/-- **A record is read as it was written**, whatever follows it. -/
theorem faithful_record : Faithful record :=
  (faithful_word16.pair (faithful_stamp.pair faithful_declarations)).via fun _ => rfl

end

end ScriptAtlas.Codec
