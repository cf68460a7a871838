/-
The words and marks of a script, each as a function that splits the text that
starts with one into it and what follows. A function gives nothing when the
text does not start so. Where two marks start alike the longer one is meant.
-/

namespace ScriptAtlas.Script

/-- A text split in front of what follows it. -/
abbrev Split := List Char × List Char

namespace Lexis

/-! ## Characters -/

/-- The character is blank between words. -/
def isGapChar (c : Char) : Bool :=
  let n := c.toNat
  (0x9 ≤ n && n ≤ 0xD) || n == 0x20 || n == 0xA0 || n == 0x1680 || (0x2000 ≤ n && n ≤ 0x200B) ||
    n == 0x2028 || n == 0x2029 || n == 0x202F || n == 0x205F || n == 0x2060 || n == 0x3000 ||
    n == 0xFEFF

/-- The character ends a line. -/
def isLineEnd (c : Char) : Bool :=
  c == '\n' || c == '\x0d' || c.toNat == 0x2028 || c.toNat == 0x2029

/-- ASCII characters from the space on that no word contains. -/
def markChars : List Char := ":;\x60\x22\x27@#.,|^&<=>+-*/\\%?!~()[]\x7b\x7d".toList

/-- The character may stand in a word. -/
def isWordPart (c : Char) : Bool :=
  0x20 ≤ c.toNat && !isGapChar c && !markChars.contains c

/-- The character may start a word. -/
def isWordStart (c : Char) : Bool := isWordPart c && !c.isDigit

/-- The character is a hexadecimal digit. -/
def isHexDigit (c : Char) : Bool :=
  c.isDigit || ('a' ≤ c && c ≤ 'f') || ('A' ≤ c && c ≤ 'F')

/-! ## Words -/

/-- An escaped code point: four digits, or any number of them in braces. -/
def codePoint? : List Char → Option Split
  | '\\' :: 'u' :: '{' :: rest =>
    match rest.takeWhile isHexDigit, rest.dropWhile isHexDigit with
    | [], _ => none
    | digits, '}' :: after => some ("\\u\x7b".toList ++ digits ++ ['}'], after)
    | _, _ => none
  | '\\' :: 'u' :: rest =>
    if (rest.take 4).length = 4 && (rest.take 4).all isHexDigit then
      some ('\\' :: 'u' :: rest.take 4, rest.drop 4)
    else none
  | _ => none

/-- The characters of a word from its second one on. -/
def wordTail : Nat → List Char → Split
  | 0, s => ([], s)
  | n + 1, s =>
    match s with
    | [] => ([], [])
    | c :: cs =>
      if isWordPart c then
        let (t, rest) := wordTail n cs
        (c :: t, rest)
      else match codePoint? s with
        | some (e, after) =>
          let (t, rest) := wordTail n after
          (e ++ t, rest)
        | none => ([], s)

/-- A word. -/
def word? (s : List Char) : Option Split :=
  match s with
  | [] => none
  | c :: cs =>
    if isWordStart c then
      let (t, rest) := wordTail cs.length cs
      some (c :: t, rest)
    else do
      let (e, after) ← codePoint? s
      let (t, rest) := wordTail after.length after
      pure (e ++ t, rest)

/-- A private name: a number sign and a word. -/
def privateName? : List Char → Option Split
  | '#' :: s => (word? s).map fun (w, rest) => ('#' :: w, rest)
  | _ => none

/-! ## Comments -/

/-- What follows the end of a block comment, with the text up to there. -/
def blockEnd? : List Char → Option Split
  | [] => none
  | '*' :: '/' :: rest => some (['*', '/'], rest)
  | c :: cs => (blockEnd? cs).map fun (t, rest) => (c :: t, rest)

/-- A comment: to the end of the line, or to the end of the block. -/
def comment? : List Char → Option Split
  | '/' :: '/' :: s =>
    some ('/' :: '/' :: s.takeWhile (!isLineEnd ·), s.dropWhile (!isLineEnd ·))
  | '/' :: '*' :: s => (blockEnd? s).map fun (t, rest) => ('/' :: '*' :: t, rest)
  | _ => none

/-- The rest of a line that a line feed or one of the two separators ends. -/
def restOfLine (s : List Char) : Split :=
  let ends (c : Char) : Bool := c == '\n' || c.toNat == 0x2028 || c.toNat == 0x2029
  (s.takeWhile (!ends ·), s.dropWhile (!ends ·))

/-- A comment in the manner of markup, which always goes to the end of the line. -/
def htmlComment? : List Char → Option Split
  | '<' :: '!' :: '-' :: '-' :: s =>
    let (t, rest) := restOfLine s
    some ('<' :: '!' :: '-' :: '-' :: t, rest)
  | '-' :: '-' :: '>' :: s =>
    let (t, rest) := restOfLine s
    some ('-' :: '-' :: '>' :: t, rest)
  | _ => none

/-! ## Numbers -/

/-- Digits with single underscores between them. -/
def digits (isDigit : Char → Bool) : List Char → Split
  | [] => ([], [])
  | c :: cs => if isDigit c then go [c] cs else ([], c :: cs)
where
  go (acc : List Char) : List Char → Split
    | '_' :: d :: rest => if isDigit d then go (d :: '_' :: acc) rest else (acc.reverse, '_' :: d :: rest)
    | d :: rest => if isDigit d then go (d :: acc) rest else (acc.reverse, d :: rest)
    | [] => (acc.reverse, [])

/-- An exponent, if there is one. -/
def exponent (s : List Char) : Split :=
  match s with
  | e :: rest =>
    if e == 'e' || e == 'E' then
      let (sign, rest) := match rest with
        | '+' :: r => (['+'], r)
        | '-' :: r => (['-'], r)
        | r => ([], r)
      match digits Char.isDigit rest with
      | ([], _) => ([], s)
      | (ds, after) => (e :: sign ++ ds, after)
    else ([], s)
  | [] => ([], [])

/-- The letter that marks a large integer, if it is there. -/
def bigMark : List Char → Split
  | 'n' :: rest => (['n'], rest)
  | s => ([], s)

/-- A number in another base, after its two leading characters. -/
def based? (isDigit : Char → Bool) (lead s : List Char) : Option Split :=
  match digits isDigit s with
  | ([], _) => none
  | (ds, rest) =>
    let (big, rest) := bigMark rest
    some (lead ++ ds ++ big, rest)

/-- A fraction and an exponent may follow these digits: at most one leading zero. -/
def takesFraction : List Char → Bool
  | ['0'] => true
  | '0' :: d :: _ => d != '0' && d != '_'
  | _ => true

/-- A number that starts with a decimal digit and is in base ten. -/
def decimal (s : List Char) : Split :=
  let (ds, rest) := digits Char.isDigit s
  if takesFraction ds then
    match rest with
    | '.' :: rest =>
      let (fraction, rest) := digits Char.isDigit rest
      let (exp, rest) := exponent rest
      (ds ++ '.' :: fraction ++ exp, rest)
    | _ =>
      match exponent rest with
      | ([], _) =>
        let (big, rest) := bigMark rest
        (ds ++ big, rest)
      | (exp, rest) => (ds ++ exp, rest)
  else
    let (big, rest) := bigMark rest
    (ds ++ big, rest)

/-- A number. -/
def number? (s : List Char) : Option Split :=
  match s with
  | '.' :: d :: rest =>
    if d.isDigit then
      let (fraction, rest) := digits Char.isDigit (d :: rest)
      let (exp, rest) := exponent rest
      some ('.' :: fraction ++ exp, rest)
    else none
  | '0' :: b :: rest =>
    let other :=
      if b == 'x' || b == 'X' then based? isHexDigit ['0', b] rest
      else if b == 'b' || b == 'B' then based? (fun c => c == '0' || c == '1') ['0', b] rest
      else if b == 'o' || b == 'O' then based? (fun c => '0' ≤ c && c ≤ '7') ['0', b] rest
      else none
    some (other.getD (decimal s))
  | d :: _ => if d.isDigit then some (decimal s) else none
  | [] => none

/-! ## Strings, templates and regular expressions -/

/-- An escape inside a string or template. -/
def escape? : List Char → Option Split
  | '\\' :: 'x' :: a :: b :: rest =>
    if isHexDigit a && isHexDigit b then some (['\\', 'x', a, b], rest) else none
  | '\\' :: 'x' :: _ => none
  | '\\' :: 'u' :: rest => codePoint? ('\\' :: 'u' :: rest)
  | '\\' :: c :: rest =>
    let isOctal (c : Char) : Bool := '0' ≤ c && c ≤ '7'
    if isOctal c then
      let ds := (c :: rest).takeWhile isOctal |>.take 3
      some ('\\' :: ds, (c :: rest).drop ds.length)
    else if c == '\x0d' || c == '?' then
      match rest with
      | d :: after =>
        if d == '\n' || d.toNat == 0x2028 || d.toNat == 0x2029 then some (['\\', c, d], after)
        else some (['\\', c], rest)
      | [] => some (['\\', c], rest)
    else some (['\\', c], rest)
  | _ => none

/-- The plain characters of a string in those quotes. -/
def stringText? (quote : Char) (s : List Char) : Option Split :=
  let plain (c : Char) : Bool := c != quote && c != '\\' && c != '\n' && c != '\x0d'
  match s.takeWhile plain with
  | [] => none
  | t => some (t, s.dropWhile plain)

/-- The plain characters of a template, up to a substitution, an escape or the end. -/
def templateText : List Char → Split
  | [] => ([], [])
  | '$' :: '{' :: rest => ([], '$' :: '{' :: rest)
  | c :: cs =>
    if c == '\x60' || c == '\\' || c.toNat == 0 then ([], c :: cs)
    else
      let (t, rest) := templateText cs
      (c :: t, rest)

/-- The class in brackets at the start of what follows the bracket. -/
def regexClass? : List Char → Option Split
  | ']' :: rest => some ([']'], rest)
  | '\\' :: c :: rest =>
    if c == '\n' then none else (regexClass? rest).map fun (t, after) => ('\\' :: c :: t, after)
  | c :: rest =>
    if c == '\n' || c == '\\' then none
    else (regexClass? rest).map fun (t, after) => (c :: t, after)
  | [] => none

/-- The pattern of a regular expression, up to its closing slash. -/
def regexPattern : Nat → List Char → Split
  | 0, s => ([], s)
  | n + 1, s =>
    match s with
    | '[' :: rest =>
      match regexClass? rest with
      | some (t, after) =>
        let (more, after) := regexPattern n after
        ('[' :: t ++ more, after)
      | none => ([], s)
    | '\\' :: c :: rest =>
      if c == '\n' then ([], s)
      else
        let (more, after) := regexPattern n rest
        ('\\' :: c :: more, after)
    | c :: rest =>
      if c == '/' || c == '\\' || c == '\n' then ([], s)
      else
        let (more, after) := regexPattern n rest
        (c :: more, after)
    | [] => ([], [])

/-! ## Marks -/

/-- The marks of more than one character, longer ones first. -/
def longMarks : List (List Char) :=
  [">>>=", "...", "===", "!==", "**=", "<<=", ">>=", ">>>", "&&=", "||=", "??=",
    "=>", "==", "!=", "<=", ">=", "&&", "||", "??", "++", "--", "+=", "-=", "*=", "/=", "%=", "&=",
    "|=", "^=", "<<", ">>", "**", "?."].map String.toList

/-- The mark at the start of the text. A question mark before a fraction stands alone. -/
def mark (s : List Char) : List Char :=
  match s with
  | '?' :: '.' :: d :: _ => if d.isDigit then ['?'] else ['?', '.']
  | _ => (longMarks.find? (·.isPrefixOf s)).getD (s.take 1)

end Lexis

end ScriptAtlas.Script
