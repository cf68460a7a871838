/-
Positions in a text as an editor counts them: lines from 0, and on a line the
UTF-16 units before the position. A byte offset inside a character has no
position; one past the end has the position of the end.
-/

namespace ScriptAtlas

/-- A line and the UTF-16 units before the position on it, both from 0. -/
structure Position where
  line : UInt32 := 0
  character : UInt32 := 0
  deriving DecidableEq, Repr, Inhabited

namespace Position

/-- The number of UTF-16 units of a character. -/
def units (c : Char) : UInt32 := if c.toNat < 0x10000 then 1 else 2

/-- The position right after a character. -/
def step (p : Position) (c : Char) : Position :=
  if c = '\n' then ⟨p.line + 1, 0⟩ else ⟨p.line, p.character + units c⟩

/-- The position `byte` bytes further on in the text. -/
def advance (p : Position) : (byte : Nat) → List Char → Option Position
  | 0, _ => some p
  | _ + 1, [] => some p
  | n + 1, c :: cs =>
    if c.utf8Size ≤ n + 1 then advance (p.step c) (n + 1 - c.utf8Size) cs else none

/-- The position of a byte offset. -/
def at? (text : List Char) (byte : Nat) : Option Position := advance {} byte text

end Position

end ScriptAtlas
