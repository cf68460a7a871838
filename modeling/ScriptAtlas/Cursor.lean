/-
What stands right before the cursor: the call whose arguments are being typed,
the parameter that is next, and the dotted chain of members that is being
typed. All three look at the text only, from the cursor backwards.
-/
import ScriptAtlas.Declaration
import ScriptAtlas.Text.Blank
import ScriptAtlas.Text.Letter

namespace ScriptAtlas.Cursor

open Text

/-- The text before the last opening parenthesis, in reverse, and the text after it. -/
def splitLastOpen (s : List Char) : Option (List Char × List Char) :=
  let back := s.reverse
  match back.dropWhile (· != '(') with
  | [] => none
  | _ :: before => some (before, (back.takeWhile (· != '(')).reverse)

/-- The receiver and the method of the call whose arguments the text ends in: two words with a dot
between them, right before the last opening parenthesis but for blanks. -/
def callTarget (text : String) : Option (String × String) := do
  let (before, _) ← splitLastOpen text.toList
  let back := before.dropWhile isBlank
  let method := back.takeWhile isWordChar
  let '.' :: rest := back.dropWhile isWordChar | none
  let receiver := rest.takeWhile isWordChar
  if method.isEmpty || receiver.isEmpty then none
  else some (String.ofList receiver.reverse, String.ofList method.reverse)

/-- The index of the parameter being typed: the commas since the last opening parenthesis, and at
most the last parameter. -/
def activeParameter (text : String) (f : Function) : Nat :=
  let args := match splitLastOpen text.toList with
    | some (_, args) => args
    | none => text.toList
  min (args.count ',') (f.params.length - 1)

/-- The characters of the text before byte `offset`, last one first, or before its end. There are
none to speak of when the offset is inside a character. -/
def beforeFrom (acc : List Char) : Nat → List Char → Option (List Char)
  | 0, _ => some acc
  | _, [] => some acc
  | n + 1, c :: cs => if c.utf8Size ≤ n + 1 then beforeFrom (c :: acc) (n + 1 - c.utf8Size) cs else none

/-- The character can be part of a name. -/
def isNameChar (c : Char) : Bool := c.isAlphanum || c == '_' || c == '$'

/-- The segments of the chain, read backwards: `current` holds what has been read of a segment, and
`parts` the segments after it. Blanks between are skipped, any other character ends the chain. -/
def segments (current : List Char) (afterDot : Bool) (parts : List (List Char)) :
    List Char → List (List Char)
  | [] => if current.isEmpty && !afterDot then parts else current :: parts
  | c :: cs =>
    if isNameChar c then segments (c :: current) false parts cs
    else if c == '.' then segments [] true (current :: parts) cs
    else if c == ' ' || c == '\t' || c == '\n' || c == '\r' then segments current afterDot parts cs
    else if current.isEmpty && !afterDot then parts else current :: parts

/-- The dotted chain of members that ends at byte `offset`. A dot at its end is kept. -/
def memberChain (text : String) (offset : Nat) : String :=
  match beforeFrom [] offset text.toList with
  | none => ""
  | some back => String.ofList (joinWith ['.'] (segments [] false [] back))

end ScriptAtlas.Cursor
