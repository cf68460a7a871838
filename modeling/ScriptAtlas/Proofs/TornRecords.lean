/-
A record that was cut short is not read. A reader is stable if what it reads
does not change when bytes are added behind: it takes what it needs and never
asks where the bytes end. So a reader that took a value from a part of a record
would take the same value from the whole record, and leave over what was cut
off; but the whole record is read with nothing left (`Faithful`).

The readers of numbers, flags and texts are stable, and readers put together
from stable ones are. Types are read to a depth that grows with the bytes, so
stability relates two readers, one for the shorter and one for the longer bytes.
-/
import ScriptAtlas.Proofs.StoredExtractions

namespace ScriptAtlas

namespace Codec

/-- What the first reader takes from bytes, the second one takes from longer bytes, and what was
added stays behind what is left. -/
structure Stable {α : Type} (read longer : Bytes → Option (α × Bytes)) : Prop where
  read_append : ∀ {a : α} {bs rest : Bytes} (more : Bytes),
    read bs = some (a, rest) → longer (bs ++ more) = some (a, rest ++ more)

section

variable {α β : Type} {c : Codec α} {d : Codec β} {read longer : Bytes → Option (α × Bytes)}

/-! ## Readers put together -/

/-- Nothing more is read. -/
theorem Stable.done (a : α) : Stable (fun bs => some (a, bs)) (fun bs => some (a, bs)) := by
  constructor
  intro a' bs rest more h
  obtain ⟨rfl, rfl⟩ := Prod.mk.inj (Option.some.inj h)
  rfl

/-- No bytes are a value. -/
theorem Stable.fail (longer : Bytes → Option (α × Bytes)) : Stable (fun _ => none) longer := by
  constructor
  intro a bs rest more h
  cases h

/-- A value that is there or not, whatever the bytes are. -/
theorem Stable.given (o : Option α) :
    Stable (fun bs => o.bind fun a => some (a, bs)) (fun bs => o.bind fun a => some (a, bs)) := by
  cases o with
  | none => exact .fail _
  | some a => exact .done a

/-- One reader goes on where another one stopped. -/
theorem Stable.bind (h : Stable read longer) {next nextLonger : α → Bytes → Option (β × Bytes)}
    (hnext : ∀ a, Stable (next a) (nextLonger a)) :
    Stable (fun bs => (read bs).bind fun x => next x.1 x.2)
      (fun bs => (longer bs).bind fun x => nextLonger x.1 x.2) := by
  constructor
  intro b bs rest more hb
  obtain ⟨⟨a, left⟩, ha, hb⟩ := Option.bind_eq_some_iff.1 hb
  simp only [h.read_append more ha, Option.bind_some]
  exact (hnext a).read_append more hb

theorem Stable.map (h : Stable read longer) (f : α → β) :
    Stable (fun bs => (read bs).map fun x => (f x.1, x.2))
      (fun bs => (longer bs).map fun x => (f x.1, x.2)) := by
  constructor
  intro b bs rest more hb
  obtain ⟨⟨a, left⟩, ha, hb⟩ := Option.map_eq_some_iff.1 hb
  obtain ⟨rfl, rfl⟩ := Prod.mk.inj hb
  simp only [h.read_append more ha, Option.map_some]

theorem Stable.ite (p : Prop) [Decidable p] {other otherLonger : Bytes → Option (α × Bytes)}
    (h : Stable read longer) (hother : Stable other otherLonger) :
    Stable (fun bs => if p then read bs else other bs)
      (fun bs => if p then longer bs else otherLonger bs) := by
  split
  · exact h
  · exact hother

/-- So many values, each from a stable reader. -/
theorem Stable.readAll (h : Stable read longer) (n : Nat) :
    Stable (Codec.readAll read n) (Codec.readAll longer n) := by
  induction n with
  | zero => exact .done []
  | succ n ih => exact h.bind fun a => ih.bind fun as => .done (a :: as)

/-! ## Numbers and choices -/

theorem stable_nat (size : Nat) : Stable (nat size).read (nat size).read := by
  induction size with
  | zero => exact .done 0
  | succ size ih =>
    constructor
    intro n bs rest more h
    cases bs with
    | nil => cases h
    | cons b bs => exact (ih.map fun n => b.toNat + 256 * n).read_append more h

theorem stable_flag : Stable flag.read flag.read := by
  constructor
  intro b bs rest more h
  simp only [flag] at h
  split at h
  · cases h
    rfl
  · cases h
    rfl
  · cases h

theorem Stable.via (h : Stable c.read c.read) (make : α → β) (unmake : β → α) :
    Stable (c.via make unmake).read (c.via make unmake).read :=
  h.map make

theorem stable_word16 : Stable word16.read word16.read := (stable_nat 2).via _ _

theorem stable_word32 : Stable word32.read word32.read := (stable_nat 4).via _ _

theorem stable_word64 : Stable word64.read word64.read := (stable_nat 8).via _ _

theorem Stable.pair (hc : Stable c.read c.read) (hd : Stable d.read d.read) :
    Stable (c.pair d).read (c.pair d).read :=
  hc.bind fun a => hd.bind fun b => .done (a, b)

theorem Stable.optional (hc : Stable c.read c.read) : Stable c.optional.read c.optional.read :=
  stable_flag.bind fun present =>
    .ite (present = true) (hc.bind fun a => .done (some a)) (.done none)

/-! ## Texts and lists -/

/-- So many bytes as they stand. -/
theorem stable_take (size : Nat) :
    Stable (fun bs => if size ≤ bs.length then some (bs.take size, bs.drop size) else none)
      (fun bs => if size ≤ bs.length then some (bs.take size, bs.drop size) else none) := by
  constructor
  intro form bs rest more h
  obtain ⟨hsize, h⟩ := Option.ite_none_right_eq_some.1 h
  obtain ⟨rfl, rfl⟩ := Prod.mk.inj (Option.some.inj h)
  have hlonger : size ≤ (bs ++ more).length := by
    rw [List.length_append]
    omega
  simp only [if_pos hlonger, List.take_append_of_le_length hsize, List.drop_append_of_le_length hsize]

theorem stable_bytes : Stable bytes.read bytes.read := (stable_nat 8).bind stable_take

theorem stable_text : Stable text.read text.read :=
  stable_bytes.bind fun form => .given (String.fromUTF8? form.toByteArray)

theorem Stable.readList (h : Stable read longer) : Stable (Codec.readList read) (Codec.readList longer) :=
  (stable_nat 8).bind h.readAll

theorem Stable.list (hc : Stable c.read c.read) : Stable c.list.read c.list.read := hc.readList

/-! ## Stamps and types -/

theorem stable_time : Stable time.read time.read :=
  ((stable_nat 8).pair (stable_nat 4)).bind fun x =>
    .ite ((x.1 * nanosPerSecond + x.2) / nanosPerSecond < secondsBound)
      (.done ((x.1 * nanosPerSecond + x.2 : Nat) : Int)) (.fail fun _ => none)

theorem stable_stamp : Stable stamp.read stamp.read := (stable_time.pair stable_word64).via _ _

/-- A reader that may look deeper reads the same type. -/
theorem stable_readType {depth deeper : Nat} (h : depth ≤ deeper) :
    Stable (readType depth) (readType deeper) := by
  induction depth generalizing deeper with
  | zero => exact .fail _
  | succ depth ih =>
    obtain ⟨deeper, rfl⟩ : ∃ n, deeper = n + 1 := ⟨deeper - 1, by omega⟩
    exact stable_text.bind fun name => stable_flag.bind fun isOptional => stable_flag.bind fun isArray =>
      stable_word32.bind fun arrayDepth => (ih (Nat.le_of_succ_le_succ h)).readList.bind fun args =>
      stable_text.optional.bind fun table =>
      .done (⟨name, isOptional, isArray, arrayDepth, args, table⟩ : TypeInfo)

theorem stable_type : Stable type.read type.read := by
  constructor
  intro t bs rest more h
  exact (stable_readType (by simp)).read_append more h

/-! ## Declarations -/

theorem stable_location : Stable location.read location.read :=
  (stable_text.pair (stable_word32.pair stable_word32)).via _ _

theorem stable_param : Stable param.read param.read :=
  (stable_text.pair (stable_type.pair (stable_text.pair stable_flag))).via _ _

theorem stable_function : Stable function.read function.read :=
  (stable_text.pair (stable_param.list.pair (stable_type.pair
    (stable_text.pair stable_location.optional)))).via _ _

theorem stable_variableOf : Stable variableOf.read variableOf.read :=
  (stable_text.pair (stable_type.pair (stable_text.pair
    (stable_text.optional.pair stable_location.optional)))).via _ _

theorem stable_classOf : Stable classOf.read classOf.read :=
  (stable_text.pair (stable_text.pair (stable_param.list.pair (stable_function.list.pair
    (stable_variableOf.list.pair (stable_text.optional.pair stable_location.optional)))))).via _ _

theorem stable_declarations : Stable declarations.read declarations.read :=
  (stable_function.list.pair (stable_variableOf.list.pair stable_classOf.list)).via _ _

theorem stable_record : Stable record.read record.read :=
  (stable_word16.pair (stable_stamp.pair stable_declarations)).via _ _

/-! ## Bytes that were cut short -/

/-- **The bytes of a value cut short are not read.** -/
theorem Faithful.read_torn (hc : Faithful c) (hs : Stable c.read c.read) {a : α} {bs torn : Bytes}
    (h : c.write a = some bs) (htorn : torn <+: bs) (hne : torn ≠ bs) : c.read torn = none := by
  obtain ⟨more, rfl⟩ := htorn
  have hmore : more ≠ [] := by
    rintro rfl
    exact hne (List.append_nil torn).symm
  have hwhole : c.read (torn ++ more) = some (a, []) := by
    simpa using hc.read_write [] h
  by_contra hread
  obtain ⟨⟨a', rest⟩, hread⟩ := Option.ne_none_iff_exists'.1 hread
  have hleft := hs.read_append more hread
  rw [hwhole, Option.some.injEq, Prod.mk.injEq] at hleft
  exact hmore (List.append_eq_nil_iff.1 hleft.2.symm).2

end

end Codec

namespace Store

section

variable {s s' : Store} {p : Put}

/-- A put that did not fail left the bytes of its record. -/
theorem exists_of_on (h : p.on s = .ok s') :
    ∃ bytes, p.record.encode? = some bytes ∧ s' = s.save p.key bytes := by
  rw [on_eq] at h
  split at h
  · rename_i bytes hbytes
    exact ⟨bytes, hbytes, (Except.ok.inj h).symm⟩
  · cases h

theorem get?_of_undecodable {key : String} {bytes : Bytes} (h : s.load key = some bytes)
    (hbytes : ExtractionRecord.decode? bytes = none) (stamp : FileStamp) : s.get? key stamp = none := by
  simp only [get?, h, hbytes, Option.bind_eq_bind, Option.bind_some, Option.bind_none]

theorem get?_of_decodable {key : String} {bytes : Bytes} (h : s.load key = some bytes)
    (hbytes : ExtractionRecord.decode? bytes = some p.record) (stamp : FileStamp) :
    s.get? key stamp = if p.stamp = stamp then some p.declarations else none := by
  simp only [get?, h, hbytes, Option.bind_eq_bind, Option.bind_some,
    ExtractionRecord.declarationsFor?, Put.record, true_and]

end

/-- **A torn record is missed.** A put that does not fail leaves the bytes of its record under its key.
Where only the start of these bytes is found, however much of them is missing, nothing is read, and an
extraction is found for no stamp. Where they are followed by others, the record is read with just the
others left over, and the extraction is found for its stamp. -/
theorem torn_record_missed (s s' : Store) (p : Put) (h : p.on s = .ok s') :
    ∃ bytes, p.record.encode? = some bytes ∧ s'.load p.key = some bytes ∧
      (∀ torn, torn <+: bytes → torn ≠ bytes → ExtractionRecord.decode? torn = none ∧
        ∀ (found : Store) (key : String), found.load key = some torn →
          ∀ stamp, found.get? key stamp = none) ∧
      (∀ more, Codec.record.read (bytes ++ more) = some (p.record, more) ∧
        ExtractionRecord.decode? (bytes ++ more) = some p.record ∧
        ∀ (found : Store) (key : String), found.load key = some (bytes ++ more) →
          ∀ stamp, found.get? key stamp = if p.stamp = stamp then some p.declarations else none) := by
  obtain ⟨bytes, hbytes, rfl⟩ := exists_of_on h
  refine ⟨bytes, hbytes, by rw [load_save, if_pos rfl], fun torn htorn hne => ?_, fun more => ?_⟩
  · have hnone : ExtractionRecord.decode? torn = none := by
      rw [ExtractionRecord.decode?, Codec.faithful_record.read_torn Codec.stable_record hbytes htorn hne,
        Option.map_none]
    exact ⟨hnone, fun found key hload => get?_of_undecodable hload hnone⟩
  · have hread := Codec.faithful_record.read_write more hbytes
    have hsome : ExtractionRecord.decode? (bytes ++ more) = some p.record := by
      rw [ExtractionRecord.decode?, hread, Option.map_some]
    exact ⟨hread, hsome, fun found key hload => get?_of_decodable hload hsome⟩

/-- A put of nested types and of texts that are not ASCII. -/
def tablePut : Put := ⟨"units/main.js", ⟨7, 4⟩, priceTable⟩

theorem tablePut_missed_without_last_byte : ∃ s' bytes, tablePut.on {} = .ok s' ∧
    s'.load "units/main.js" = some bytes ∧ ExtractionRecord.decode? bytes.dropLast = none ∧
    (s'.save "units/main.js" bytes.dropLast).get? "units/main.js" ⟨7, 4⟩ = none ∧
    (s'.save "units/main.js" (bytes ++ [0, 255])).get? "units/main.js" ⟨7, 4⟩ = some priceTable := by
  obtain ⟨form, hform, -⟩ := exists_encode? (r := tablePut.record) ⟨⟨by decide, by decide⟩, fits_priceTable⟩
  have hon : tablePut.on {} = .ok (save {} "units/main.js" form) := by rw [on_eq, hform]; rfl
  obtain ⟨bytes, -, hload, htorn, hmore⟩ := torn_record_missed {} _ tablePut hon
  have hne : bytes ≠ [] := by
    rintro rfl
    have hread : Codec.record.read [] = some (tablePut.record, []) := (hmore []).1
    cases hread
  have hshort : bytes.dropLast ≠ bytes := by
    intro h
    have hlength := congrArg List.length h
    have hpos := List.length_pos_iff.2 hne
    rw [List.length_dropLast] at hlength
    omega
  obtain ⟨hnone, hmissed⟩ := htorn _ (List.dropLast_prefix bytes) hshort
  refine ⟨_, bytes, hon, hload, hnone, hmissed _ _ (by rw [load_save, if_pos rfl]) _, ?_⟩
  rw [(hmore [0, 255]).2.2 _ _ (by rw [load_save, if_pos rfl])]
  rfl

end Store

end ScriptAtlas
