/-
Writing values as bytes and reading them back. Numbers take a fixed number of
bytes, least significant first; a text or a list starts with its length in
eight bytes; a choice starts with a byte that is 0 or 1. A reader takes the
bytes of one value from the front and hands on the rest, so the bytes of
several values can stand one after another.
-/

namespace ScriptAtlas

/-- A row of bytes. -/
abbrev Bytes := List UInt8

/-- How the values of a type are written and read. A value that has no form is not written, bytes
that are no value are not read. -/
structure Codec (α : Type) where
  write : α → Option Bytes
  read : Bytes → Option (α × Bytes)

namespace Codec

/-! ## Numbers -/

/-- The lowest `size` bytes of a number, least significant first. -/
def littleEndian : (size : Nat) → Nat → Bytes
  | 0, _ => []
  | size + 1, n => UInt8.ofNat n :: littleEndian size (n / 256)

/-- The number that the first `size` bytes are, and what follows them. -/
def readLittleEndian : (size : Nat) → Bytes → Option (Nat × Bytes)
  | 0, bs => some (0, bs)
  | _ + 1, [] => none
  | size + 1, b :: bs => (readLittleEndian size bs).map fun (n, rest) => (b.toNat + 256 * n, rest)

/-- Numbers that fit `size` bytes. -/
def nat (size : Nat) : Codec Nat where
  write n := if n < Nat.pow 256 size then some (littleEndian size n) else none
  read := readLittleEndian size

/-- A codec for values that stand for those of another type. -/
def via {α β : Type} (c : Codec α) (make : α → β) (unmake : β → α) : Codec β where
  write b := c.write (unmake b)
  read bs := (c.read bs).map fun (a, rest) => (make a, rest)

/-- Words of two bytes. -/
def word16 : Codec UInt16 := (nat 2).via UInt16.ofNat UInt16.toNat

/-- Words of four bytes. -/
def word32 : Codec UInt32 := (nat 4).via UInt32.ofNat UInt32.toNat

/-- Words of eight bytes. -/
def word64 : Codec UInt64 := (nat 8).via UInt64.ofNat UInt64.toNat

/-! ## Choices -/

/-- A truth value is the byte 0 or 1. -/
def flag : Codec Bool where
  write b := some [if b then 1 else 0]
  read
    | 0 :: rest => some (false, rest)
    | 1 :: rest => some (true, rest)
    | _ => none

/-- One value after another. -/
def pair {α β : Type} (c : Codec α) (d : Codec β) : Codec (α × β) where
  write p := do return (← c.write p.1) ++ (← d.write p.2)
  read bs := do
    let (a, bs) ← c.read bs
    let (b, bs) ← d.read bs
    return ((a, b), bs)

/-- A value that may be absent: the flag says whether it follows. -/
def optional {α : Type} (c : Codec α) : Codec (Option α) where
  write
    | none => flag.write false
    | some a => do return (← flag.write true) ++ (← c.write a)
  read bs := do
    let (present, bs) ← flag.read bs
    if present then
      let (a, bs) ← c.read bs
      return (some a, bs)
    else return (none, bs)

/-! ## Texts and lists -/

/-- A row of bytes is its length and the bytes. -/
def bytes : Codec Bytes where
  write bs := do return (← (nat 8).write bs.length) ++ bs
  read bs := do
    let (size, bs) ← (nat 8).read bs
    if size ≤ bs.length then return (bs.take size, bs.drop size) else none

/-- A text is the bytes of its UTF-8 form. -/
def text : Codec String where
  write s := bytes.write s.toUTF8.toList
  read bs := do
    let (form, bs) ← bytes.read bs
    return (← String.fromUTF8? form.toByteArray, bs)

/-- The forms of values one after another. -/
def writeAll {α : Type} (write : α → Option Bytes) : List α → Option Bytes
  | [] => some []
  | a :: as => do return (← write a) ++ (← writeAll write as)

/-- So many values from the front of the bytes. -/
def readAll {α : Type} (read : Bytes → Option (α × Bytes)) : Nat → Bytes → Option (List α × Bytes)
  | 0, bs => some ([], bs)
  | n + 1, bs => do
    let (a, bs) ← read bs
    let (as, bs) ← readAll read n bs
    return (a :: as, bs)

/-- A list is written as its length and its members. -/
def writeList {α : Type} (write : α → Option Bytes) (as : List α) : Option Bytes := do
  return (← (nat 8).write as.length) ++ (← writeAll write as)

/-- A list is read as its length and its members. -/
def readList {α : Type} (read : Bytes → Option (α × Bytes)) (bs : Bytes) :
    Option (List α × Bytes) := do
  let (size, bs) ← (nat 8).read bs
  readAll read size bs

/-- Lists of values that have a codec. -/
def list {α : Type} (c : Codec α) : Codec (List α) where
  write := writeList c.write
  read := readList c.read

end Codec

end ScriptAtlas
