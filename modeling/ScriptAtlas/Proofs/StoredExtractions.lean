/-
What a store holds after extractions were stored in it, one after another:
under each key the last one that could be stored. One whose file was written
before 1970 cannot be, and leaves the store as it was. Every other one can,
as long as its texts and lists are no longer than a machine can hold.

`get?_after` says what is found after a list of puts; the round trip of a
record is `exists_encode?` for the way out and `Codec.faithful_record` for the
way back.
-/
import Mathlib.Data.List.Induction
import ScriptAtlas.Proofs.CacheRuns

namespace ScriptAtlas

/-! ## Values that can be written -/

/-- The number of bytes or members that a length of eight bytes cannot count. -/
def lengthBound : Nat := Nat.pow 256 8

/-- The UTF-8 form of the text has a length. -/
def FitsText (s : String) : Prop := s.utf8ByteSize < lengthBound

/-- The list has a length, and its members have the property. -/
def FitsList {α : Type} (p : α → Prop) (as : List α) : Prop :=
  as.length < lengthBound ∧ ∀ a ∈ as, p a

/-- What is there has the property. -/
def FitsOption {α : Type} (p : α → Prop) (o : Option α) : Prop := ∀ a ∈ o, p a

mutual

/-- The texts and lists in a type have lengths. -/
def TypeInfo.Fits : TypeInfo → Prop
  | ⟨name, _, _, _, args, table⟩ =>
    FitsText name ∧ args.length < lengthBound ∧ TypeInfo.AllFit args ∧ FitsOption FitsText table

/-- The texts and lists in types have lengths. -/
def TypeInfo.AllFit : List TypeInfo → Prop
  | [] => True
  | t :: ts => t.Fits ∧ TypeInfo.AllFit ts

end

/-- The name of its file has a length. -/
def Location.Fits (l : Location) : Prop := FitsText l.file

/-- The texts and lists in a parameter have lengths. -/
def Param.Fits (p : Param) : Prop := FitsText p.name ∧ p.type.Fits ∧ FitsText p.description

/-- The texts and lists in a function have lengths. -/
def Function.Fits (f : Function) : Prop :=
  FitsText f.name ∧ FitsList Param.Fits f.params ∧ f.returns.Fits ∧ FitsText f.description ∧
    FitsOption Location.Fits f.location

/-- The texts and lists in a variable have lengths. -/
def Variable.Fits (v : Variable) : Prop :=
  FitsText v.name ∧ v.type.Fits ∧ FitsText v.description ∧ FitsOption FitsText v.deprecated ∧
    FitsOption Location.Fits v.location

/-- The texts and lists in a class have lengths. -/
def Class.Fits (c : Class) : Prop :=
  FitsText c.name ∧ FitsText c.description ∧ FitsList Param.Fits c.params ∧
    FitsList Function.Fits c.methods ∧ FitsList Variable.Fits c.vars ∧ FitsOption FitsText c.base ∧
    FitsOption Location.Fits c.location

/-- The texts and lists in declarations have lengths. -/
def Declarations.Fits (d : Declarations) : Prop :=
  FitsList Function.Fits d.functions ∧ FitsList Variable.Fits d.vars ∧ FitsList Class.Fits d.classes

/-- The time is not before 1970, and its seconds fit 63 bits. -/
def FileStamp.Fits (s : FileStamp) : Prop :=
  0 ≤ s.modified ∧ s.modified.toNat / Codec.nanosPerSecond < Codec.secondsBound

/-- The record has a form. -/
def ExtractionRecord.Fits (r : ExtractionRecord) : Prop := r.stamp.Fits ∧ r.declarations.Fits

namespace Codec

/-- Values with the property are written. -/
structure Writes {α : Type} (c : Codec α) (p : α → Prop) : Prop where
  exists_write : ∀ {a : α}, p a → ∃ bs, c.write a = some bs

section

variable {α β : Type} {c : Codec α} {d : Codec β} {p : α → Prop} {q : β → Prop}

theorem writes_nat (size : Nat) : Writes (nat size) (· < Nat.pow 256 size) := by
  constructor
  intro n hn
  exact ⟨littleEndian size n, if_pos hn⟩

theorem Writes.via (h : Writes c p) {make : α → β} {unmake : β → α} (hq : ∀ b, q b → p (unmake b)) :
    Writes (c.via make unmake) q := by
  constructor
  intro b hb
  exact h.exists_write (hq b hb)

theorem writes_word16 : Writes word16 fun _ => True :=
  (writes_nat 2).via fun n _ => n.toNat_lt

theorem writes_word32 : Writes word32 fun _ => True :=
  (writes_nat 4).via fun n _ => n.toNat_lt

theorem writes_word64 : Writes word64 fun _ => True :=
  (writes_nat 8).via fun n _ => n.toNat_lt

theorem writes_flag : Writes flag fun _ => True := ⟨fun _ => ⟨_, rfl⟩⟩

theorem Writes.pair (hc : Writes c p) (hd : Writes d q) :
    Writes (c.pair d) fun x => p x.1 ∧ q x.2 := by
  constructor
  rintro ⟨a, b⟩ ⟨ha, hb⟩
  obtain ⟨b₁, h₁⟩ := hc.exists_write ha
  obtain ⟨b₂, h₂⟩ := hd.exists_write hb
  exact ⟨b₁ ++ b₂, by simp [Codec.pair, h₁, h₂]⟩

theorem Writes.optional (hc : Writes c p) : Writes c.optional (FitsOption p) := by
  constructor
  intro o ho
  cases o with
  | none => exact ⟨_, rfl⟩
  | some a =>
    obtain ⟨bs, h⟩ := hc.exists_write (ho a rfl)
    exact ⟨1 :: bs, by simp [Codec.optional, flag, h]⟩

theorem writes_bytes : Writes bytes fun bs => bs.length < lengthBound := by
  constructor
  intro bs hbs
  obtain ⟨size, h⟩ := (writes_nat 8).exists_write hbs
  exact ⟨size ++ bs, by simp [bytes, h]⟩

theorem length_toUTF8 (s : String) : s.toUTF8.toList.length = s.utf8ByteSize := by
  have hlist : s.toUTF8.toList = s.toUTF8.data.toList := toList_loop s.toUTF8 0 []
  rw [hlist]
  rfl

theorem writes_text : Writes text FitsText := by
  constructor
  intro s hs
  exact writes_bytes.exists_write (by rwa [length_toUTF8])

theorem exists_writeAll {write : α → Option Bytes} {as : List α}
    (h : ∀ a ∈ as, ∃ bs, write a = some bs) : ∃ bs, writeAll write as = some bs := by
  induction as with
  | nil => exact ⟨[], rfl⟩
  | cons a as ih =>
    obtain ⟨b₁, h₁⟩ := h a (by simp)
    obtain ⟨b₂, h₂⟩ := ih fun a' ha' => h a' (by simp [ha'])
    exact ⟨b₁ ++ b₂, by simp [writeAll, h₁, h₂]⟩

theorem Writes.list (hc : Writes c p) : Writes c.list (FitsList p) := by
  constructor
  rintro as ⟨hlength, has⟩
  obtain ⟨size, h₁⟩ := (writes_nat 8).exists_write hlength
  obtain ⟨bs, h₂⟩ := exists_writeAll fun a ha => hc.exists_write (has a ha)
  exact ⟨size ++ bs, by simp [Codec.list, writeList, h₁, h₂]⟩

theorem writes_time : Writes time fun t => 0 ≤ t ∧ t.toNat / nanosPerSecond < secondsBound := by
  constructor
  rintro t ⟨hpos, hbound⟩
  have hseconds : t.toNat / nanosPerSecond < Nat.pow 256 8 := Nat.lt_trans hbound (by decide)
  have hnanos : t.toNat % nanosPerSecond < Nat.pow 256 4 :=
    Nat.lt_trans (Nat.mod_lt _ (by decide)) (by decide)
  rw [write_time, if_neg (by omega)]
  exact ((writes_nat 8).pair (writes_nat 4)).exists_write (a := (_, _)) ⟨hseconds, hnanos⟩

/-- A time before 1970 has no form. -/
theorem write_time_of_neg {t : Int} (h : t < 0) : time.write t = none := by
  rw [write_time, if_pos (.inl h)]

theorem writes_stamp : Writes stamp FileStamp.Fits :=
  (writes_time.pair writes_word64).via fun _ h => ⟨h, trivial⟩

/-- A type whose arguments are written is written. -/
theorem exists_writeType {name : String} {isOptional isArray : Bool} {depth : UInt32}
    {args : List TypeInfo} {table : Option String} (hname : FitsText name)
    (hlength : args.length < lengthBound) (hargs : ∃ bs, writeTypes args = some bs)
    (htable : FitsOption FitsText table) :
    ∃ bs, writeType ⟨name, isOptional, isArray, depth, args, table⟩ = some bs := by
  obtain ⟨b₁, h₁⟩ := writes_text.exists_write hname
  obtain ⟨b₂, h₂⟩ := writes_flag.exists_write (a := isOptional) trivial
  obtain ⟨b₃, h₃⟩ := writes_flag.exists_write (a := isArray) trivial
  obtain ⟨b₄, h₄⟩ := writes_word32.exists_write (a := depth) trivial
  obtain ⟨b₅, h₅⟩ := (writes_nat 8).exists_write hlength
  obtain ⟨b₆, h₆⟩ := hargs
  obtain ⟨b₇, h₇⟩ := writes_text.optional.exists_write htable
  simp only [writeType, h₁, h₂, h₃, h₄, h₅, h₆, h₇, Option.bind_eq_bind, Option.bind_some,
    Option.pure_def, Option.some.injEq, exists_eq']

mutual

theorem exists_writeType_of_fits : ∀ t : TypeInfo, t.Fits → ∃ bs, writeType t = some bs
  | ⟨_, _, _, _, args, _⟩, h =>
    exists_writeType h.1 h.2.1 (exists_writeTypes_of_allFit args h.2.2.1) h.2.2.2

theorem exists_writeTypes_of_allFit :
    ∀ ts : List TypeInfo, TypeInfo.AllFit ts → ∃ bs, writeTypes ts = some bs
  | [], _ => ⟨[], rfl⟩
  | t :: ts, ⟨ht, hts⟩ => by
    obtain ⟨b₁, h₁⟩ := exists_writeType_of_fits t ht
    obtain ⟨b₂, h₂⟩ := exists_writeTypes_of_allFit ts hts
    exact ⟨b₁ ++ b₂, by simp [writeTypes, h₁, h₂]⟩

end

theorem writes_type : Writes type TypeInfo.Fits := ⟨fun h => exists_writeType_of_fits _ h⟩

theorem writes_location : Writes location Location.Fits :=
  (writes_text.pair (writes_word32.pair writes_word32)).via fun _ h => ⟨h, trivial, trivial⟩

theorem writes_param : Writes param Param.Fits :=
  (writes_text.pair (writes_type.pair (writes_text.pair writes_flag))).via
    fun _ ⟨hname, htype, htext⟩ => ⟨hname, htype, htext, trivial⟩

theorem writes_function : Writes function Function.Fits :=
  (writes_text.pair (writes_param.list.pair (writes_type.pair
    (writes_text.pair writes_location.optional)))).via fun _ h => h

theorem writes_variableOf : Writes variableOf Variable.Fits :=
  (writes_text.pair (writes_type.pair (writes_text.pair
    (writes_text.optional.pair writes_location.optional)))).via fun _ h => h

theorem writes_classOf : Writes classOf Class.Fits :=
  (writes_text.pair (writes_text.pair (writes_param.list.pair (writes_function.list.pair
    (writes_variableOf.list.pair (writes_text.optional.pair writes_location.optional)))))).via
    fun _ h => h

theorem writes_declarations : Writes declarations Declarations.Fits :=
  (writes_function.list.pair (writes_variableOf.list.pair writes_classOf.list)).via fun _ h => h

theorem writes_record : Writes record ExtractionRecord.Fits :=
  (writes_word16.pair (writes_stamp.pair writes_declarations)).via fun _ h => ⟨trivial, h⟩

end

end Codec

/-! ## Extractions stored one after another -/

namespace Store

/-- An extraction to be stored under a key. -/
structure Put where
  key : String
  stamp : FileStamp
  declarations : Declarations
  deriving DecidableEq, Repr

namespace Put

/-- What storing it makes of a store. -/
def on (p : Put) (s : Store) : Except Fault Store := s.set p.key p.stamp p.declarations

/-- The record that is stored. -/
def record (p : Put) : ExtractionRecord := ⟨ExtractionRecord.currentFormat, p.stamp, p.declarations⟩

/-- The record has a form. -/
def isStorable (p : Put) : Bool := p.record.encode?.isSome

end Put

/-- The store after puts. One that fails leaves it as it was. -/
def after (s : Store) (puts : List Put) : Store :=
  puts.foldl (fun s p => match p.on s with | .ok changed => changed | .error _ => s) s

/-- The last of the puts under a key that did not fail. -/
def lastPut? (puts : List Put) (key : String) : Option Put :=
  (puts.filter fun p => p.key == key && p.isStorable).getLast?

section

variable {s : Store} {p : Put} {puts : List Put} {key : String} {stamp : FileStamp}

theorem on_eq (p : Put) (s : Store) : p.on s =
    match p.record.encode? with
    | some bytes => .ok (s.save p.key bytes)
    | none => .error .unwritable := rfl

/-- Whether a put fails does not depend on what the store holds. -/
theorem isOk_on (p : Put) (s : Store) : (p.on s).isOk = p.isStorable := by
  rw [on_eq, Put.isStorable]
  cases p.record.encode? <;> rfl

theorem after_append (s : Store) (puts : List Put) (p : Put) :
    s.after (puts ++ [p]) = match p.on (s.after puts) with
      | .ok changed => changed
      | .error _ => s.after puts := by
  simp only [after, List.foldl_append, List.foldl_cons, List.foldl_nil]

theorem lastPut?_append (puts : List Put) (p : Put) (key : String) :
    lastPut? (puts ++ [p]) key = if p.key = key ∧ p.isStorable then some p else lastPut? puts key := by
  by_cases h : p.key = key ∧ p.isStorable
  · simp [lastPut?, List.filter_append, h]
  · have hf : (p.key == key && p.isStorable) = false := by simpa using h
    simp [lastPut?, List.filter_append, hf, h]

/-- **One put**: what is found under its key is what was put, and only for its stamp. -/
theorem get?_save {bytes : Bytes} (h : p.record.encode? = some bytes) :
    (s.save p.key bytes).get? key stamp =
      if p.key = key then (if p.stamp = stamp then some p.declarations else none)
      else s.get? key stamp := by
  simp only [get?, load_save]
  by_cases hk : p.key = key
  · simp only [hk, if_true, Option.bind_eq_bind, Option.bind_some, decode?_of_encode? h,
      ExtractionRecord.declarationsFor?, Put.record, true_and]
  · simp only [hk, Ne.symm hk, if_false]

/-- **All puts**: what is found under a key is what was put there last, and only for its stamp. -/
theorem get?_after (s : Store) (puts : List Put) (key : String) (stamp : FileStamp) :
    (s.after puts).get? key stamp = match lastPut? puts key with
      | some p => if p.stamp = stamp then some p.declarations else none
      | none => s.get? key stamp := by
  induction puts using List.reverseRecOn with
  | nil => rfl
  | append_singleton puts p ih =>
    rw [after_append, lastPut?_append, on_eq, Put.isStorable]
    cases hb : p.record.encode? with
    | none => simpa using ih
    | some bytes =>
      by_cases hk : p.key = key
      · subst hk
        simp [get?_save hb]
      · simpa [get?_save hb, hk] using ih

/-- What was written before 1970 cannot be stored. -/
theorem encode?_of_neg {r : ExtractionRecord} (h : r.stamp.modified < 0) : r.encode? = none := by
  simp [ExtractionRecord.encode?, Codec.record, Codec.stamp, Codec.via, Codec.pair,
    Codec.write_time_of_neg h]

theorem on_of_neg (h : p.stamp.modified < 0) : p.on s = .error .unwritable := by
  rw [on_eq, encode?_of_neg (r := p.record) h]

/-- **A record is written and read back**, whatever follows it. -/
theorem exists_encode? {r : ExtractionRecord} (h : r.Fits) :
    ∃ bytes, r.encode? = some bytes ∧ ∀ rest, ExtractionRecord.decode? (bytes ++ rest) = some r := by
  obtain ⟨bytes, hw⟩ := Codec.writes_record.exists_write h
  refine ⟨bytes, hw, fun rest => ?_⟩
  rw [ExtractionRecord.decode?, Codec.faithful_record.read_write rest hw]
  rfl

end

/-- **What a store holds after puts.** From an empty store, an extraction is found under a key for a
stamp exactly if it is what the last put under that key that did not fail put there. A put of a file
written before 1970 fails and changes nothing; any other one does not fail, if its texts and lists have
lengths. And every record is read as it was written. -/
theorem found_iff_last_put (puts : List Put) (key : String) (stamp : FileStamp) (d : Declarations) :
    let s := after {} puts
    (s.get? key stamp = some d ↔
      ∃ p, lastPut? puts key = some p ∧ p.stamp = stamp ∧ p.declarations = d) ∧
    (∀ p : Put, (p.on s).isOk = p.isStorable) ∧
    (∀ p : Put, p.stamp.modified < 0 →
      p.on s = .error .unwritable ∧ Fault.unwritable.message = "Failed to encode extraction record" ∧
        after {} (puts ++ [p]) = s) ∧
    (∀ p : Put, p.stamp.Fits → p.declarations.Fits → p.isStorable) ∧
    (∀ r : ExtractionRecord, r.Fits → ∃ bytes, r.encode? = some bytes ∧
      ∀ rest, ExtractionRecord.decode? (bytes ++ rest) = some r) := by
  intro s
  refine ⟨?_, fun p => isOk_on p s, fun p hp => ⟨on_of_neg hp, rfl, ?_⟩, fun p hs hd => ?_,
    fun r => exists_encode?⟩
  · rw [get?_after]
    cases lastPut? puts key with
    | none => simp [get?, load]
    | some p => simp
  · rw [after_append, on_of_neg hp]
  · obtain ⟨bytes, hb, -⟩ := exists_encode? (r := p.record) ⟨hs, hd⟩
    rw [Put.isStorable, hb]
    rfl

/-- A variable with a nested type and names that are not ASCII. -/
def priceTable : Declarations :=
  { vars := [{ name := "größen"
               type := { name := "Map", genericArgs := [.named "string",
                 { name := "Array", isArray := true, arrayDepth := 2, genericArgs := [.named "数"] }] }
               description := ""
               deprecated := some "Préférez prix"
               location := some ⟨"main.js", 1, 0⟩ }] }

/-- One key, put twice, and then for a file of before 1970. -/
def repeatedPuts : List Put :=
  [⟨"units/main.js", ⟨5, 3⟩, {}⟩,
    ⟨"units/main.js", ⟨7, 4⟩, priceTable⟩,
    ⟨"units/main.js", ⟨-1, 4⟩, {}⟩]

theorem fits_priceTable : priceTable.Fits := by
  have hvar : ∀ v ∈ priceTable.vars, v.Fits := by
    rintro v hv
    obtain rfl := List.mem_singleton.1 hv
    simp only [Variable.Fits, TypeInfo.Fits, TypeInfo.AllFit, TypeInfo.named, FitsOption, FitsText,
      Location.Fits]
    decide
  exact ⟨⟨by decide, nofun⟩, ⟨by decide, hvar⟩, ⟨by decide, nofun⟩⟩

theorem repeatedPuts_found :
    let s := after {} repeatedPuts
    s.get? "units/main.js" ⟨7, 4⟩ = some priceTable ∧ s.get? "units/main.js" ⟨5, 3⟩ ≠ some {} ∧
      Put.on ⟨"units/main.js", ⟨-2, 0⟩, {}⟩ s = .error .unwritable ∧
      Put.isStorable ⟨"units/main.js", ⟨7, 4⟩, priceTable⟩ ∧
      ∃ bytes, ExtractionRecord.encode? ⟨3, ⟨7, 4⟩, priceTable⟩ = some bytes ∧
        ExtractionRecord.decode? bytes = some ⟨3, ⟨7, 4⟩, priceTable⟩ := by
  intro s
  have hlast : lastPut? repeatedPuts "units/main.js" = some ⟨"units/main.js", ⟨7, 4⟩, priceTable⟩ := by
    decide +kernel
  have hstamp : FileStamp.Fits ⟨7, 4⟩ := ⟨by decide, by decide⟩
  obtain ⟨hfound, -, hfails, hstored, hback⟩ :=
    found_iff_last_put repeatedPuts "units/main.js" ⟨7, 4⟩ priceTable
  obtain ⟨hother, -⟩ := found_iff_last_put repeatedPuts "units/main.js" ⟨5, 3⟩ {}
  obtain ⟨bytes, hbytes, hread⟩ := hback ⟨3, ⟨7, 4⟩, priceTable⟩ ⟨hstamp, fits_priceTable⟩
  refine ⟨hfound.2 ⟨_, hlast, rfl, rfl⟩, fun h => ?_, (hfails ⟨_, ⟨-2, 0⟩, {}⟩ (by decide)).1,
    hstored ⟨_, ⟨7, 4⟩, priceTable⟩ hstamp fits_priceTable, bytes, hbytes, ?_⟩
  · obtain ⟨p, hp, hstamp, -⟩ := hother.1 h
    obtain rfl := Option.some.inj (hlast.symm.trans hp)
    exact absurd hstamp (by decide)
  · simpa using hread []

end Store

end ScriptAtlas
