/-
Blank characters and lines: the two ways every reader of this library cuts
text up. Blank means the property White_Space, so a no-break space and an
ideographic space are trimmed like a tab. A line ends at a line feed, and a
carriage return right before it belongs to the ending.
-/

namespace ScriptAtlas.Text

/-- The character has the property White_Space. -/
def isBlank (c : Char) : Bool :=
  let n := c.toNat
  (0x9 ≤ n && n ≤ 0xD) || n == 0x20 || n == 0x85 || n == 0xA0 || n == 0x1680 ||
    (0x2000 ≤ n && n ≤ 0x200A) || n == 0x2028 || n == 0x2029 || n == 0x202F || n == 0x205F ||
    n == 0x3000

/-- The text without its leading blanks. -/
def trimStart (s : List Char) : List Char := s.dropWhile isBlank

/-- The text without its trailing blanks. -/
def trimEnd (s : List Char) : List Char := (s.reverse.dropWhile isBlank).reverse

/-- The text without blanks at either end. -/
def trim (s : List Char) : List Char := trimEnd (trimStart s)

/-- A finished line, whose carriage return before the line feed is dropped. -/
def lineBody (l : List Char) : List Char :=
  if l.getLast? = some '\r' then l.dropLast else l

/-- `lines`, with the characters of the line being read in reverse. -/
def linesFrom (acc : List Char) : List Char → List (List Char)
  | [] => if acc.isEmpty then [] else [acc.reverse]
  | c :: cs => if c = '\n' then lineBody acc.reverse :: linesFrom [] cs else linesFrom (c :: acc) cs

/-- The lines of a text. A last line feed ends the last line and starts none. -/
def lines (s : List Char) : List (List Char) := linesFrom [] s

/-- The pieces between the characters `sep`; there is always at least one. -/
def splitAtChar (sep : Char) : List Char → List (List Char)
  | [] => [[]]
  | c :: cs =>
    if c = sep then [] :: splitAtChar sep cs
    else match splitAtChar sep cs with
      | [] => [[c]]
      | p :: ps => (c :: p) :: ps

/-- The pieces with `sep` between them. -/
def joinWith (sep : List Char) (pieces : List (List Char)) : List Char :=
  sep.intercalate pieces

/-- What follows `lead`, when the text starts with it. -/
def dropLead? (lead : List Char) (s : List Char) : Option (List Char) :=
  if lead.isPrefixOf s then some (s.drop lead.length) else none

/-- What precedes `tail`, when the text ends with it. -/
def dropTail? (tail : List Char) (s : List Char) : Option (List Char) :=
  if tail.isSuffixOf s then some (s.take (s.length - tail.length)) else none

/-- ASCII letters in lower case, all else as it is. -/
def asciiLower (s : List Char) : List Char := s.map Char.toLower

/-- The index of the last occurrence of `c`. -/
def lastIndexOf? (c : Char) (s : List Char) : Option Nat :=
  (s.reverse.findIdx? (· == c)).map (s.length - 1 - ·)

end ScriptAtlas.Text
