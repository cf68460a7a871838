/-
Literals: strings, numbers, regular expressions, templates, arrays, and the
names of properties.
-/
import ScriptAtlas.Script.Goal

namespace ScriptAtlas.Script.Reader

/-- A string in those quotes. Only its end may stand on a later line. -/
def quoted (quote : Char) : Reader Pieces := do
  let opening ← token (exactly [quote]) plain
  let parts ← many (adjacent (Lexis.stringText? quote) (named .stringPart) <|>
    adjacent Lexis.escape? (named .escape))
  let closing ← token (exactly [quote]) plain
  return Pieces.wrap .string (opening ++ parts ++ closing)

/-- A string. -/
def string : Reader Pieces := quoted '\x22' <|> quoted '\x27'

/-- A number. -/
def number : Reader Pieces := token Lexis.number? (named .number)

/-- A regular expression with its flags. -/
def regex : Reader Pieces := do
  let opening ← token (exactly ['/']) plain
  let pattern ← adjacent (fun s => some (Lexis.regexPattern s.length s)) (named .regexPattern)
  let closing ← adjacent (exactly ['/']) plain
  let isFlag (c : Char) : Bool := 'a' ≤ c && c ≤ 'z'
  let flags ← optional
    (adjacent (fun s => some (s.takeWhile isFlag, s.dropWhile isFlag)) (named .regexFlags))
  return Pieces.wrap .regex (opening ++ pattern ++ closing ++ flags)

/-- A template. -/
def template (self : Answers) : Reader Pieces := do
  let opening ← token (exactly ['\x60']) plain
  let text := adjacent (fun s => some (Lexis.templateText s)) (named .stringPart)
  let substitution : Reader Pieces := do
    return Pieces.wrap .substitution
      ((← adjacent (exactly ['$', '{']) plain) ++ (← expressions self {}) ++ (← mark "\x7d"))
  let parts ← many (text <|> adjacent Lexis.escape? (named .escape) <|> substitution)
  let closing ← adjacent (exactly ['\x60']) plain
  return Pieces.wrap .template (opening ++ parts ++ closing)

/-- An array, in which items may be left out. -/
def array (self : Answers) : Reader Pieces := do
  return Pieces.wrap .array
    ((← mark "[") ++ (← items (spread self <|> self (.expression {}))) ++ (← mark "]"))

/-- A private name. -/
def privateName : Reader Pieces := token Lexis.privateName? (named .privateName)

/-- The name of a property, method or field. -/
def propertyName (self : Answers) : Reader Pieces :=
  anyWord .propertyName <|> privateName <|> string <|> number <|> do
    return Pieces.wrap .computedName
      ((← mark "[") ++ (← self (.expression {})) ++ (← mark "]"))

end ScriptAtlas.Script.Reader
