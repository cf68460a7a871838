/-
A text cut into words without a grammar: names, numbers, strings and marks,
each with the blanks and comments before it, and last the end of the text.
Put one after another they are the text again, so leaving some out, or putting
one in, gives another text that can be read.
-/
import ScriptAtlas.Script.Source

namespace ScriptAtlas.Script

/-- A name, number, string or mark; the end of a text has an empty one. `notes` is what stands
before it up to the end of the last comment, and `blank` the blanks after that. -/
structure Lexeme where
  notes : List Char := []
  blank : List Char := []
  text : List Char
  deriving DecidableEq, Repr, Inhabited

namespace Lexeme

/-- The string that starts the text. -/
def string? (s : List Char) : Option Split :=
  (Reader.string (.ofText s)).found.map fun (ps, rest) => (Shape.texts ps, rest.rest)

/-- The character starts a string. -/
def isQuote (c : Char) : Bool := c == '\x22' || c == '\x27'

/-- The text up to the end of its line. -/
def line (s : List Char) : Split :=
  let inLine (c : Char) : Bool := c != '\n' && c != '\r'
  (s.takeWhile inLine, s.dropWhile inLine)

/-- The first word of a text. A string without an end goes to the end of its line. -/
def first (s : List Char) : Split :=
  match Lexis.word? s <|> Lexis.privateName? s <|> Lexis.number? s <|> string? s with
  | some split => split
  | none =>
    if (s.head?.map isQuote).getD false then line s
    else
      let m := Lexis.mark s
      (m, s.drop m.length)

/-- The words of a text, at most `n` of them. -/
def wordsFrom : (n : Nat) → List Char → List Lexeme
  | 0, _ => []
  | n + 1, s =>
    let (lead, i) := Reader.gapsFrom false (s.length + 1) [] (.ofText s)
    let isBlank : Shape → Bool
      | .blank _ => true
      | _ => false
    let notes := Shape.texts (lead.reverse.dropWhile isBlank).reverse
    let blank := Shape.texts (lead.reverse.takeWhile isBlank).reverse
    match first i.rest with
    | ([], _) => [⟨notes, blank, []⟩]
    | (text, rest) => ⟨notes, blank, text⟩ :: wordsFrom n rest

/-- The words of a text and its end. -/
def ofText (text : List Char) : List Lexeme := wordsFrom (text.length + 1) text

/-- What stands before the word. -/
def gap (l : Lexeme) : List Char := l.notes ++ l.blank

/-- The source text of words. -/
def texts (ls : List Lexeme) : List Char := ls.flatMap fun l => l.gap ++ l.text

/-- The source text of words without what stands before the first one. -/
def body : List Lexeme → List Char
  | [] => []
  | l :: ls => l.text ++ texts ls

/-- The word is a string without an end. -/
def isOpen (l : Lexeme) : Bool :=
  (l.text.head?.map isQuote).getD false && (string? l.text).isNone

/-- The index of the word that covers the character at an offset, or of the next one. -/
def indexAt : (offset : Nat) → List Lexeme → Nat
  | _, [] => 0
  | offset, l :: ls =>
    let size := l.gap.length + l.text.length
    if offset < size then 0 else indexAt (offset - size) ls + 1

end Lexeme

end ScriptAtlas.Script
