/-
The patterns of ignore rules, matched byte by byte against a whole path. `*`
takes bytes up to a slash and `?` one that is no slash; `**/` in front takes
nothing or any folders, `/**/` between names takes one slash or more folders,
and `/**` at the end takes what is below; `[a-z]` and `[!a-z]` take one byte,
`{a,b}` takes one of the alternatives, and a backslash takes the next
character for itself.
-/
import ScriptAtlas.Cache.Codec

namespace ScriptAtlas.IgnoreRule

/-- A part of a pattern. -/
inductive Piece where
  /-- One byte in the ranges, or outside of them. -/
  | byte (negated : Bool) (ranges : List (UInt8 × UInt8))
  | star
  | foldersBefore
  | foldersBetween
  | allBelow
  | choice (branches : List (List Piece))
  deriving Repr, Inhabited

/-! ## Matching -/

/-- The byte of a slash. -/
def slash : UInt8 := 0x2F

/-- What follows each slash. -/
def afterSlashes : Bytes → List Bytes
  | [] => []
  | b :: rest => if b = slash then rest :: afterSlashes rest else afterSlashes rest

/-- What follows so many bytes none of which is a slash, for each such number. -/
def withinName : Bytes → List Bytes
  | [] => [[]]
  | b :: rest => if b = slash then [b :: rest] else (b :: rest) :: withinName rest

/-- What follows any number of bytes. -/
def tails : Bytes → List Bytes
  | [] => [[]]
  | b :: rest => (b :: rest) :: tails rest

/-- What follows the slash that the bytes start with. -/
def pastSlash? : Bytes → Option Bytes
  | b :: rest => if b = slash then some rest else none
  | [] => none

mutual

/-- The part takes nothing whatever it is matched with, because all it is made of is empty. -/
def isVoid : Piece → Bool
  | .choice branches => areVoid branches
  | _ => false

/-- All parts of a row are void. -/
def isVoidRow : List Piece → Bool
  | [] => true
  | p :: ps => isVoid p && isVoidRow ps

/-- All rows are void. -/
def areVoid : List (List Piece) → Bool
  | [] => true
  | row :: rows => isVoidRow row && areVoid rows

end

mutual

/-- What can be left of the bytes when the part has taken its own from the front. -/
def rests : Piece → Bytes → List Bytes
  | .byte negated ranges, bs =>
    match bs with
    | b :: rest => if ranges.any (fun (l, h) => l ≤ b && b ≤ h) != negated then [rest] else []
    | [] => []
  | .star, bs => withinName bs
  | .foldersBefore, bs => bs :: afterSlashes bs
  | .foldersBetween, bs =>
    match pastSlash? bs with
    | some rest => rest :: afterSlashes rest
    | none => []
  | .allBelow, bs =>
    match pastSlash? bs with
    | some rest => tails rest
    | none => []
  | .choice branches, bs => if areVoid branches then [bs] else restsOfAny branches bs

/-- What can be left when each part of a row has taken its own. -/
def restsOfRow : List Piece → Bytes → List Bytes
  | [], bs => [bs]
  | p :: ps, bs => (rests p bs).flatMap (restsOfRow ps)

/-- What can be left when one of the rows has taken its own. A void row is not counted. -/
def restsOfAny : List (List Piece) → Bytes → List Bytes
  | [], _ => []
  | row :: rows, bs => (if isVoidRow row then [] else restsOfRow row bs) ++ restsOfAny rows bs

end

/-- The pattern takes the whole path. Folders in front and nothing else take every path. -/
def accepts (pattern : List Piece) (path : Bytes) : Bool :=
  match pattern with
  | [.foldersBefore] => true
  | _ => (restsOfRow pattern path).any (·.isEmpty)

/-! ## Reading -/

/-- The bytes of a character. -/
def bytesOf (c : Char) : Bytes := (String.singleton c).toUTF8.toList

/-- The part that takes one byte. -/
def exactly (b : UInt8) : Piece := .byte false [(b, b)]

/-- The parts that take a character, last byte first. -/
def literal (c : Char) : List Piece := (bytesOf c).reverse.map exactly

/-- The bytes of a range of characters. Of characters of several bytes, only the last byte of the
first one and the first byte of the last one span a range, the others stand for themselves. -/
def byteRanges (r : Char × Char) : List (UInt8 × UInt8) :=
  let same (bs : Bytes) := bs.map fun b => (b, b)
  if r.1 = r.2 then same (bytesOf r.1)
  else
    match (bytesOf r.1).getLast?, bytesOf r.2 with
    | some low, high :: after => same (bytesOf r.1).dropLast ++ [(low, high)] ++ same after
    | _, _ => []

/-- What a bracket turns out to be. -/
inductive ClassReading where
  | unclosed
  | badRange
  | closed (ranges : List (Char × Char)) (rest : List Char)
  deriving Repr

/-- The rest of a class. `ranges` are those read so far, last first; `openRange` says that a dash has
been read and the last range is to be closed. A bracket or a dash right at the start is a member. -/
def readClass (ranges : List (Char × Char)) (openRange : Bool) : List Char → ClassReading
  | [] => .unclosed
  | c :: rest =>
    match ranges with
    | [] => readClass [(c, c)] false rest
    | (low, high) :: others =>
      if c = ']' then
        .closed ((if openRange then [('-', '-')] else []) ++ ranges).reverse rest
      else if openRange then
        if c < low then .badRange else readClass ((low, c) :: others) false rest
      else if c = '-' then readClass ((low, high) :: others) true rest
      else readClass ((c, c) :: ranges) false rest

/-- A class whose bracket has been read, with what follows. -/
def readBracket (s : List Char) : Bool × ClassReading :=
  match s with
  | '!' :: rest => (true, readClass [] false rest)
  | '^' :: rest => (true, readClass [] false rest)
  | _ => (false, readClass [] false s)

/-- An open brace: the parts before it, and the alternatives that are complete. -/
structure Group where
  before : List Piece
  done : List (List Piece)
  deriving Repr, Inhabited

/-- The reader of a pattern: the parts read in this row, last first, the braces that are open,
innermost first, the character before, and whether a bracket has been found open. -/
structure Reading where
  row : List Piece := []
  groups : List Group := []
  previous : Option Char := none
  openBracket : Bool := false
  deriving Repr, Inhabited

namespace Reading

/-- The reading with more parts, the last of them first. -/
def push (r : Reading) (last : Char) (ps : List Piece) : Reading :=
  { r with row := ps ++ r.row, previous := some last }

/-- Two stars with what stands before and after them. Between slashes, or at an end, they stand for
folders, elsewhere for two single stars. The answer says whether the slash after them is used up. -/
def doubleStar (r : Reading) (next : Option Char) : Reading × Bool :=
  let stars := (r.push '*' [.star, .star], false)
  if r.row.isEmpty then
    match next with
    | none => (r.push '*' [.foldersBefore], false)
    | some '/' => (r.push '/' [.foldersBefore], true)
    | _ => stars
  else if r.previous ≠ some '/' ∧
      (r.groups.isEmpty ∨ (r.previous ≠ some ',' ∧ r.previous ≠ some '\x7b')) then stars
  else
    let kept := r.row.drop 1
    let merged (p : Piece) : List Piece := match r.row.head? with
      | some .foldersBefore => .foldersBefore :: kept
      | some .allBelow => .allBelow :: kept
      | _ => p :: kept
    match next with
    | none => ({ r with row := merged .allBelow, previous := some '*' }, false)
    | some '/' => ({ r with row := merged .foldersBetween, previous := some '/' }, true)
    | some c =>
      if (c = ',' ∨ c = '\x7d') ∧ !r.groups.isEmpty then
        ({ r with row := merged .allBelow, previous := some '*' }, false)
      else stars

/-- The reading after a brace that closes a group. -/
def close? (r : Reading) : Option Reading :=
  match r.groups with
  | [] => none
  | g :: groups =>
    some { r with row := .choice (g.done ++ [r.row.reverse]) :: g.before, groups := groups
                  previous := some '\x7d' }

/-- The reading after a comma, which divides the alternatives of a group. -/
def comma (r : Reading) : Reading :=
  match r.groups with
  | [] => r.push ',' (literal ',')
  | g :: groups =>
    { r with row := [], groups := { g with done := g.done ++ [r.row.reverse] } :: groups
             previous := some ',' }

/-- The reading after a bracket, and what follows it or its class. A bracket that is not closed
stands for itself. -/
def bracket? (r : Reading) (s : List Char) : Option (Reading × List Char) :=
  if r.openBracket then some (r.push '[' (literal '['), s)
  else
    match readBracket s with
    | (_, .badRange) => none
    | (_, .unclosed) => some ({ r.push '[' (literal '[') with openBracket := true }, s)
    | (negated, .closed ranges rest) =>
      some (r.push ']' [.byte negated (ranges.flatMap byteRanges)], rest)

/-- One step of the reading, and what follows. -/
def next? (r : Reading) : Char → List Char → Option (Reading × List Char)
  | '?', s => some (r.push '?' [.byte true [(slash, slash)]], s)
  | '*', '*' :: s =>
    let (r, usesSlash) := r.doubleStar s.head?
    some (r, if usesSlash then s.drop 1 else s)
  | '*', s => some (r.push '*' [.star], s)
  | '[', s => r.bracket? s
  | '\x7b', s =>
    some ({ r with row := [], groups := ⟨r.row, []⟩ :: r.groups, previous := some '\x7b' }, s)
  | '\x7d', s => r.close?.map (·, s)
  | ',', s => some (r.comma, s)
  | '\\', c :: s => some (r.push c (literal c), s)
  | '\\', [] => none
  | c, s => some (r.push c (literal c), s)

/-- At most so many steps of the reading, to the end. Every brace has to be closed. -/
def finish? : Nat → Reading → List Char → Option (List Piece)
  | _, r, [] => if r.groups.isEmpty then some r.row.reverse else none
  | 0, _, _ => none
  | n + 1, r, c :: s => do
    let (r, s) ← r.next? c s
    finish? n r s

end Reading

/-- The pattern that a text is. -/
def pattern? (s : List Char) : Option (List Piece) := Reading.finish? s.length {} s

end ScriptAtlas.IgnoreRule
