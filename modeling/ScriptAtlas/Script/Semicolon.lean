/-
Where a statement ends without a semicolon. After its last word a statement
may end at a closing brace, at the end of the script, or at a line break whose
next word cannot go on with it. The decision is made right after a word and,
when it is no, once more after each comment that follows. Numbers named `n`
are at least the length of the text.
-/
import ScriptAtlas.Script.Lexis

namespace ScriptAtlas.Script.Semicolon

open Lexis

/-- A blank character of ASCII, which is all that counts here. -/
def isSpace (c : Char) : Bool := c == ' ' || ('\x09' ≤ c && c ≤ '\x0d')

/-- The character breaks a line. -/
def isBreak (c : Char) : Bool := c == '\n' || c.toNat == 0x2028 || c.toNat == 0x2029

/-- What blanks and comments were found to be. -/
inductive Gap where
  /-- They end here, or with a comment that holds a line break. -/
  | broken
  /-- They end with a comment on one line. -/
  | unbroken
  /-- A slash that starts no comment follows. -/
  | slash
  deriving DecidableEq, Repr

/-- What follows a block comment, and whether a line break was in it or before. -/
def blockRest (seen : Bool) : List Char → Bool × List Char
  | [] => (seen, [])
  | '*' :: '/' :: rest => (seen, rest)
  | c :: cs => blockRest (seen || isBreak c) cs

/-- Skip blanks and comments; with `all` also past block comments. -/
def skip (all : Bool) : Nat → (seen : Bool) → List Char → Gap × List Char
  | 0, _, s => (.broken, s)
  | n + 1, seen, s =>
    match s.dropWhile isSpace with
    | '/' :: '/' :: rest => skip all n seen (rest.dropWhile (!isBreak ·))
    | '/' :: '*' :: rest =>
      let (seen, rest) := blockRest seen rest
      if all || rest.isEmpty || rest.head? == some '/' then skip all n seen rest
      else (if seen then .broken else .unbroken, rest)
    | '/' :: rest => (.slash, rest)
    | rest => (.broken, rest)

/-- The statement ends before the word that starts the next line. -/
def endsBefore : List Char → Bool
  | '.' :: rest => (rest.head?.map Char.isDigit).getD false
  | '+' :: rest => rest.head? == some '+'
  | '-' :: rest => rest.head? == some '-'
  | '!' :: rest => rest.head? != some '='
  | 'i' :: 'n' :: rest =>
    let goesOn (s : List Char) : Bool := (s.head?.map Char.isAlpha).getD false
    goesOn rest && (!"stanceof".toList.isPrefixOf rest || goesOn (rest.drop 8))
  | c :: _ => !("\x60,:;*%><=[(?^|&/".toList.contains c)
  | [] => true

/-- The statement ends after a line break. The number bounds the length of the text. -/
def endsAfterBreak (n : Nat) (s : List Char) : Bool :=
  match skip true (n + 1) false s with
  | (.slash, _) => false
  | (_, rest) => endsBefore rest

/-- The decision on a text that starts with no comment; after a blank `next` decides. -/
def goOn (next : List Char → Bool) (n : Nat) : List Char → Bool
  | [] => false
  | c :: cs =>
    if c == '}' then true
    else if isBreak c then endsAfterBreak n cs
    else isSpace c && next cs

/-- The statement ends right here. `value` says that it could end with a value here, so that an
operator may follow. -/
def endsAt (value : Bool) : (n : Nat) → List Char → Bool
  | 0, s => s.isEmpty
  | n + 1, s =>
    match s with
    | [] => true
    | '/' :: _ =>
      match skip false (n + 2) false s with
      | (.slash, _) => false
      | (.broken, rest) =>
        if !value && rest.head? != some ',' && rest.head? != some '=' then true
        else goOn (endsAt value n) n rest
      | (.unbroken, rest) => goOn (endsAt value n) n rest
    | _ => goOn (endsAt value n) n s

/-- What follows the comment that comes next. -/
def afterComment? (s : List Char) : Option (List Char) :=
  (comment? (s.dropWhile isGapChar)).map (·.2)

/-- The statement ends here, or after one of the comments that follow. -/
def ends (value : Bool) : (n : Nat) → List Char → Bool
  | 0, s => s.isEmpty
  | n + 1, s =>
    endsAt value (n + 1) s ||
      match afterComment? s with
      | some rest => ends value n rest
      | none => false

end ScriptAtlas.Script.Semicolon
