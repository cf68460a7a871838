/-
Elements of markup that stand as values in a script. Their text is not read as
script; expressions in braces are. The name that closes an element is not
compared with the one that opened it.
-/
import ScriptAtlas.Script.Callable

namespace ScriptAtlas.Script

namespace Lexis

/-- The character goes on with a name that has dashes. -/
def isTagPart (c : Char) : Bool := c.isAlphanum || c == '_' || c == '$' || c == '-'

/-- A name of a tag or attribute: a word, or an ASCII word with dashes. -/
def tagWord? (s : List Char) : Option Split := do
  let (w, rest) ← word? s
  if w.all isTagPart && rest.head? == some '-' then
    pure (w ++ rest.takeWhile isTagPart, rest.dropWhile isTagPart)
  else pure (w, rest)

/-- A character named or numbered between an ampersand and a semicolon. -/
def entity? : List Char → Option Split
  | '&' :: s =>
    let body : Option Split := match s with
      | '#' :: x :: rest =>
        if x == 'x' || x == 'X' then some ('#' :: x :: (rest.takeWhile isHexDigit).take 6, rest.drop
          ((rest.takeWhile isHexDigit).take 6).length)
        else some ('#' :: ((x :: rest).takeWhile Char.isDigit).take 5, (x :: rest).drop
          (((x :: rest).takeWhile Char.isDigit).take 5).length)
      | _ => some ((s.takeWhile Char.isAlpha).take 30, s.drop ((s.takeWhile Char.isAlpha).take 30).length)
    match body with
    | some (t, ';' :: rest) =>
      if t.isEmpty || t == ['#'] || t == ['#', 'x'] || t == ['#', 'X'] then none
      else some ('&' :: t ++ [';'], rest)
    | _ => none
  | _ => none

/-- The text between elements. Blanks alone are text only when they are not broken by a line feed
or come before one. -/
def markupText? (s : List Char) : Option Split :=
  let plain (c : Char) : Bool := c != '<' && c != '>' && c != '{' && c != '}' && c != '&'
  let t := s.takeWhile plain
  let counts := (t.foldl (fun (seen, fresh) c =>
    if c == '\n' then (seen, true)
    else
      let fresh := fresh && Semicolon.isSpace c
      (seen || !fresh, fresh)) (false, false)).1
  if counts then some (t, s.dropWhile plain) else none

/-- The text of an attribute in those quotes. -/
def attributeText (quote : Char) : List Char → Split
  | [] => ([], [])
  | c :: cs =>
    let stops := c == quote || (c == '&' && match cs with
      | d :: _ => d == '#' || d.isAlpha
      | [] => true)
    if stops then ([], c :: cs)
    else
      let (t, rest) := attributeText quote cs
      (c :: t, rest)

end Lexis

namespace Reader

/-- The name of a tag: a name, a dotted name, or two names with a colon. -/
def tagName : Reader Pieces := do
  let first ← token Lexis.tagWord? (named .identifier)
  match ← nextMark with
  | ":" => return first ++ (← mark ":") ++ (← token Lexis.tagWord? (named .identifier))
  | "." => dottedFrom (← rest).length first
  | _ => return first

/-- An expression in braces, which may be empty. -/
def embedded (self : Answers) : Reader Pieces := do
  return Pieces.wrap .embedded
    ((← mark "\x7b") ++ (← optional (spread self <|> expressions self {})) ++ (← mark "\x7d"))

/-- The value of an attribute in quotes. -/
def attributeString (quote : Char) : Reader Pieces := do
  let opening ← token (exactly [quote]) plain
  let text := adjacent (fun s => some (Lexis.attributeText quote s)) (named .stringPart)
  let parts ← many (text <|> adjacent Lexis.entity? (named .entity))
  return Pieces.wrap .string (opening ++ parts ++ (← adjacent (exactly [quote]) plain))

/-- An attribute: an expression in braces, or a name that may have a value. -/
def tagAttribute (self : Answers) : Reader Pieces := embedded self <|> do
  let name ← token Lexis.tagWord? (named .propertyName)
  let more ← if (← nextMark) == ":" then
      pure ((← mark ":") ++ (← token Lexis.tagWord? (named .propertyName)))
    else pure []
  let value ← if (← nextMark) == "=" then
      pure ((← mark "=") ++ (← attributeString '\x22' <|> attributeString '\x27' <|>
        embedded self <|> self .element))
    else pure []
  return Pieces.wrap .attribute (name ++ more ++ value)

/-- What stands between the tags of an element. -/
def elementChild (self : Answers) : Reader Pieces :=
  adjacent Lexis.markupText? (named .markupText) <|> token Lexis.entity? (named .entity) <|>
    embedded self <|> self .element

/-- An element: a tag that closes itself, or two tags with what stands between them. -/
def element (self : Answers) : Reader Pieces := do
  let opening ← token (exactly ['<']) plain
  guard ((← rest).head? != some '/')
  let name ← optional tagName
  let attributes ← if name.isEmpty then pure [] else many (tagAttribute self)
  let closed ← if name.isEmpty then pure [] else optional (token (exactly ['/', '>']) plain)
  if !closed.isEmpty then
    return Pieces.wrap .element (opening ++ name ++ attributes ++ closed)
  let tagEnd ← token (exactly ['>']) plain
  let children ← many (elementChild self)
  let closing ← token (exactly ['<', '/']) plain
  let last ← optional tagName
  return Pieces.wrap .element (Pieces.wrap .tag (opening ++ name ++ attributes ++ tagEnd) ++ children ++
    Pieces.wrap .tag (closing ++ last ++ (← token (exactly ['>']) plain)))

end Reader

end ScriptAtlas.Script
