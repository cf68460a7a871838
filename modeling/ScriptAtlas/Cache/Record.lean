/-
The record of one extraction: what a file looked like and what it declares,
as bytes. Reading a record gives back what was written. Bytes after it are
not looked at, and a record cut short is no record.
-/
import ScriptAtlas.Cache.Codec
import ScriptAtlas.Declaration

namespace ScriptAtlas

/-- What a file looks like from outside: when it was written last, in nanoseconds since the start
of 1970, and its length in bytes. -/
structure FileStamp where
  modified : Int
  size : UInt64
  deriving DecidableEq, Repr, Inhabited

/-- What a file declared when it had the stamp. `format` tells apart records that were written
under other rules of extraction. -/
structure ExtractionRecord where
  format : UInt16
  stamp : FileStamp
  declarations : Declarations
  deriving DecidableEq, Repr, Inhabited

namespace Codec

/-! ## Stamps -/

/-- The number of nanoseconds in a second. -/
def nanosPerSecond : Nat := 1000000000

/-- The number of seconds that no time has reached. -/
def secondsBound : Nat := Nat.pow 2 63

/-- A time is whole seconds and the nanoseconds over them. A time before 1970 has no form, nor
has one whose seconds do not fit 63 bits. Nanoseconds that make a second are counted as one. -/
def time : Codec Int where
  write t :=
    let n := t.toNat
    if t < 0 ∨ secondsBound ≤ n / nanosPerSecond then none
    else ((nat 8).pair (nat 4)).write (n / nanosPerSecond, n % nanosPerSecond)
  read bs := do
    let ((seconds, nanos), bs) ← ((nat 8).pair (nat 4)).read bs
    let n := seconds * nanosPerSecond + nanos
    if n / nanosPerSecond < secondsBound then return (n, bs) else none

/-- The time, then the length. -/
def stamp : Codec FileStamp :=
  (time.pair word64).via (fun (t, n) => ⟨t, n⟩) (fun s => (s.modified, s.size))

/-! ## Types -/

mutual

/-- The form of a type: its fields in order. -/
def writeType : TypeInfo → Option Bytes
  | ⟨name, isOptional, isArray, depth, args, table⟩ => do
    return (← text.write name) ++ (← flag.write isOptional) ++ (← flag.write isArray) ++
      (← word32.write depth) ++ (← (nat 8).write args.length) ++ (← writeTypes args) ++
      (← text.optional.write table)

/-- The forms of types one after another. -/
def writeTypes : List TypeInfo → Option Bytes
  | [] => some []
  | t :: ts => do return (← writeType t) ++ (← writeTypes ts)

end

/-- A type from the front of the bytes, nested at most `depth` levels. -/
def readType : (depth : Nat) → Bytes → Option (TypeInfo × Bytes)
  | 0, _ => none
  | depth + 1, bs => do
    let (name, bs) ← text.read bs
    let (isOptional, bs) ← flag.read bs
    let (isArray, bs) ← flag.read bs
    let (arrayDepth, bs) ← word32.read bs
    let (args, bs) ← readList (readType depth) bs
    let (table, bs) ← text.optional.read bs
    return (⟨name, isOptional, isArray, arrayDepth, args, table⟩, bs)

/-- Types. A level of nesting takes more than one byte, so there are fewer levels than bytes. -/
def type : Codec TypeInfo where
  write := writeType
  read bs := readType bs.length bs

/-! ## Declarations -/

/-- File, line and column. -/
def location : Codec Location :=
  (text.pair (word32.pair word32)).via
    (fun (file, line, column) => ⟨file, line, column⟩)
    (fun l => (l.file, l.line, l.column))

/-- The fields of a parameter in order. -/
def param : Codec Param :=
  (text.pair (type.pair (text.pair flag))).via
    (fun (name, type, description, isOptional) => ⟨name, type, description, isOptional⟩)
    (fun p => (p.name, p.type, p.description, p.optional))

/-- The fields of a function in order. -/
def function : Codec Function :=
  (text.pair (param.list.pair (type.pair (text.pair location.optional)))).via
    (fun (name, params, returns, description, location) =>
      ⟨name, params, returns, description, location⟩)
    (fun f => (f.name, f.params, f.returns, f.description, f.location))

/-- The fields of a variable in order. -/
def variableOf : Codec Variable :=
  (text.pair (type.pair (text.pair (text.optional.pair location.optional)))).via
    (fun (name, type, description, deprecated, location) =>
      ⟨name, type, description, deprecated, location⟩)
    (fun v => (v.name, v.type, v.description, v.deprecated, v.location))

/-- The fields of a class in order. -/
def classOf : Codec Class :=
  (text.pair (text.pair (param.list.pair (function.list.pair (variableOf.list.pair
    (text.optional.pair location.optional)))))).via
    (fun (name, description, params, methods, vars, base, location) =>
      ⟨name, description, params, methods, vars, base, location⟩)
    (fun c => (c.name, c.description, c.params, c.methods, c.vars, c.base, c.location))

/-- Functions, variables and classes. -/
def declarations : Codec Declarations :=
  (function.list.pair (variableOf.list.pair classOf.list)).via
    (fun (functions, vars, classes) => ⟨functions, vars, classes⟩)
    (fun d => (d.functions, d.vars, d.classes))

/-- Format, stamp and declarations. -/
def record : Codec ExtractionRecord :=
  (word16.pair (stamp.pair declarations)).via
    (fun (format, stamp, declarations) => ⟨format, stamp, declarations⟩)
    (fun r => (r.format, r.stamp, r.declarations))

end Codec

namespace ExtractionRecord

/-- The bytes of the record. There are none for a time before 1970. -/
def encode? (r : ExtractionRecord) : Option Bytes := Codec.record.write r

/-- The record at the start of the bytes. -/
def decode? (bytes : Bytes) : Option ExtractionRecord := (Codec.record.read bytes).map (·.1)

/-- The format that is written now. -/
def currentFormat : UInt16 := 1

/-- The declarations, if they hold for a file with that stamp. -/
def declarationsFor? (r : ExtractionRecord) (stamp : FileStamp) : Option Declarations :=
  if r.format = currentFormat ∧ r.stamp = stamp then some r.declarations else none

end ExtractionRecord

end ScriptAtlas
