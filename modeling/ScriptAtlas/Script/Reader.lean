/-
Readers: functions that take pieces from the front of the text that is left.
A reader that fails takes nothing, and the one that is tried after it starts
at the same place. Every reply tells how little text was left where something
was looked for last, which is where a script that no reader takes is at fault.
-/
import ScriptAtlas.Script.Semicolon
import ScriptAtlas.Script.Shape

namespace ScriptAtlas.Script

/-- The text that is left, and its length. -/
structure Input where
  rest : List Char
  left : Nat
  deriving Repr, Inhabited

namespace Input

/-- All of a text. -/
def ofText (text : List Char) : Input := ⟨text, text.length⟩

/-- The input after some characters. -/
def skip (i : Input) (text rest : List Char) : Input := ⟨rest, i.left - text.length⟩

end Input

/-- What a reader says: what it found and the input after it, or nothing. `least` is the length of
what was left at the last place at which it looked for something. -/
structure Reply (α : Type) where
  least : Nat
  found : Option (α × Input)

/-- A reader of values. -/
def Reader (α : Type) : Type := Input → Reply α

namespace Reader

variable {α β : Type}

/-- Find the value without taking anything. -/
def pure (a : α) : Reader α := fun i => ⟨i.left, some (a, i)⟩

/-- Find nothing. -/
def fail : Reader α := fun i => ⟨i.left, none⟩

/-- Go on with what was found. -/
def bind (r : Reader α) (f : α → Reader β) : Reader β := fun i =>
  match r i with
  | ⟨least, none⟩ => ⟨least, none⟩
  | ⟨least, some (a, j)⟩ =>
    let reply := f a j
    ⟨min least reply.least, reply.found⟩

instance : Monad Reader where
  pure := pure
  bind := bind

/-- Try the second reader where the first one finds nothing. -/
def orElse (r : Reader α) (s : Unit → Reader α) : Reader α := fun i =>
  match r i with
  | ⟨least, none⟩ =>
    let reply := s () i
    ⟨min least reply.least, reply.found⟩
  | reply => reply

instance : OrElse (Reader α) := ⟨orElse⟩

/-- The text that is left. -/
def rest : Reader (List Char) := fun i => ⟨i.left, some (i.rest, i)⟩

/-- Go on only if the condition holds. -/
def guard (b : Bool) : Reader Unit := if b then pure () else fail

/-- Find the value that is there, or fail. -/
def ofOption : Option α → Reader α
  | some a => pure a
  | none => fail

/-- What the reader finds, and nothing taken. -/
def ahead (r : Reader α) : Reader α := fun i =>
  let reply := r i
  ⟨reply.least, reply.found.map fun (a, _) => (a, i)⟩

/-- Whether the reader finds something; nothing is taken. -/
def finds (r : Reader α) : Reader Bool := fun i => ⟨i.left, some ((r i).found.isSome, i)⟩

/-- The pieces found, or none. -/
def optional (r : Reader Pieces) : Reader Pieces := r <|> pure []

/-- The pieces found by reading again and again, at most `n` times. -/
def manyFrom (r : Reader Pieces) : Nat → (found : List Pieces) → (least : Nat) → Reader Pieces
  | 0, found, least => fun i => ⟨least, some (found.reverse.flatten, i)⟩
  | n + 1, found, least => fun i =>
    match r i with
    | ⟨least', none⟩ => ⟨min least least', some (found.reverse.flatten, i)⟩
    | ⟨least', some (ps, j)⟩ => manyFrom r n (ps :: found) (min least least') j

/-- The pieces found by reading as often as something is found. -/
def many (r : Reader Pieces) : Reader Pieces := fun i => manyFrom r (i.left + 1) [] i.left i

/-! ## Blanks and comments -/

/-- Blanks and comments in front of the text that is left; with `html` also markup comments. -/
def gapsFrom (html : Bool) : Nat → Pieces → Input → Pieces × Input
  | 0, found, i => (found.reverse, i)
  | n + 1, found, i =>
    match i.rest.takeWhile Lexis.isGapChar with
    | [] =>
      let comment := match Lexis.comment? i.rest with
        | some s => some (Kind.comment, s)
        | none => if html then (Lexis.htmlComment? i.rest).map (Kind.htmlComment, ·) else none
      match comment with
      | some (kind, c :: t, rest) =>
        gapsFrom html n (.leaf kind none c t :: found) (i.skip (c :: t) rest)
      | _ => (found.reverse, i)
    | blank =>
      gapsFrom html n (.blank blank :: found) (i.skip blank (i.rest.dropWhile Lexis.isGapChar))

/-- Take blanks and comments. -/
def gaps (html : Bool) : Reader Pieces := fun i =>
  ⟨i.left, some (gapsFrom html (i.left + 1) [] i)⟩

/-! ## Words and marks -/

/-- Take blanks, comments and then what `split` finds, as the piece that `make` gives. -/
def token (split : List Char → Option Split) (make : Char → List Char → Shape) : Reader Pieces :=
  fun i =>
    let (lead, j) := gapsFrom false (i.left + 1) [] i
    match split j.rest with
    | some (c :: t, rest) => ⟨j.left, some (lead ++ [make c t], j.skip (c :: t) rest)⟩
    | _ => ⟨j.left, none⟩

/-- The same without blanks or comments before it. -/
def adjacent (split : List Char → Option Split) (make : Char → List Char → Shape) :
    Reader Pieces := fun i =>
  match split i.rest with
  | some (c :: t, rest) => ⟨i.left, some ([make c t], i.skip (c :: t) rest)⟩
  | _ => ⟨i.left, none⟩

/-- A piece without a name. -/
def plain (c : Char) (t : List Char) : Shape := .mark (c :: t)

/-- A named piece. -/
def named (kind : Kind) (c : Char) (t : List Char) : Shape := .leaf kind none c t

/-- The text, when it starts so. -/
def exactly (text : List Char) (s : List Char) : Option Split :=
  if text.isPrefixOf s then some (text, s.drop text.length) else none

/-- One of the marks, when the text starts with it and with no longer one. -/
def markIn (marks : List String) (s : List Char) : Option Split :=
  let m := Lexis.mark s
  if marks.contains (String.ofList m) then some (m, s.drop m.length) else none

/-- A mark. -/
def mark (m : String) : Reader Pieces := token (markIn [m]) plain

/-- The word, when the text starts with it and with no longer one. -/
def wordIn (words : List String) (s : List Char) : Option Split :=
  match Lexis.word? s with
  | some (w, rest) => if words.contains (String.ofList w) then some (w, rest) else none
  | none => none

/-- A word with a meaning of its own. -/
def word (w : String) : Reader Pieces := token (wordIn [w]) plain

/-- A word with a meaning of its own that is a node. -/
def wordAs (w : String) (kind : Kind) : Reader Pieces := token (wordIn [w]) (named kind)

/-- Any word, as a name of that kind. -/
def anyWord (kind : Kind) : Reader Pieces := token Lexis.word? (named kind)

/-- The mark that comes next, after blanks and comments. -/
def nextMark : Reader String := fun i =>
  let (_, j) := gapsFrom false (i.left + 1) [] i
  ⟨j.left, some (String.ofList (Lexis.mark j.rest), i)⟩

/-- The word that comes next, after blanks and comments; empty when there is none. -/
def nextWord : Reader String := fun i =>
  let (_, j) := gapsFrom false (i.left + 1) [] i
  match Lexis.word? j.rest with
  | some (w, _) => ⟨j.left, some (String.ofList w, i)⟩
  | none => ⟨j.left, some ("", i)⟩

/-- A statement may end here. -/
def endsHere (value : Bool) : Reader Bool := fun i =>
  ⟨i.left, some (Semicolon.ends value i.left i.rest, i)⟩

/-- The end of a statement: a semicolon, or a place where none is needed. -/
def semicolon (value : Bool) : Reader Pieces := do
  if ← endsHere value then return []
  mark ";"

end Reader

end ScriptAtlas.Script
