/-
Reading type expressions with a position. A scan stands at a position of a text,
looks at the characters from there on and moves the position; there is nothing
that keeps it inside of the text or makes it end but how it is written. What
could go wrong is a fault of its own: a position outside of the text, a count
below zero, a slice that ends before it starts, a type that was read without
moving, and calls and rounds of loops beyond a given number.
-/
import ScriptAtlas.DocType.Reader

namespace ScriptAtlas.DocType

open Text

/-- What must not happen while a text is scanned. -/
inductive Fault where
  /-- The position leaves the text. -/
  | beyond
  /-- The position or the number of open brackets falls below zero. -/
  | underflow
  /-- A slice ends before it starts. -/
  | reversed
  /-- Something was read, but the position did not move. -/
  | idle
  /-- There are calls or rounds left to make, but none is allowed. -/
  | spent
  deriving DecidableEq, Repr

/-- A scan of a text from a position: what it finds, if it finds something, and the position it ends
at. -/
structure Scan (α : Type) where
  run : (text : List Char) → (pos : Nat) → Except Fault (Option α × Nat)

namespace Scan

/-- Scans one after another. One that finds nothing is the last. -/
instance : Monad Scan where
  pure a := ⟨fun _ pos => .ok (some a, pos)⟩
  bind m next := ⟨fun text pos =>
    match m.run text pos with
    | .error f => .error f
    | .ok (none, stop) => .ok (none, stop)
    | .ok (some a, stop) => (next a).run text stop⟩

/-! ## Single moves -/

/-- Find nothing. -/
def refuse {α : Type} : Scan α := ⟨fun _ pos => .ok (none, pos)⟩

/-- Have a fault. -/
def fail {α : Type} (f : Fault) : Scan α := ⟨fun _ _ => .error f⟩

/-- The position. -/
def here : Scan Nat := ⟨fun _ pos => .ok (some pos, pos)⟩

/-- The text has no character at the position or behind it. -/
def atEnd : Scan Bool := ⟨fun text pos => .ok (some (text.length ≤ pos), pos)⟩

/-- The character so many places behind the position. -/
def peek (ahead : Nat) : Scan (Option Char) := ⟨fun text pos => .ok (some text[pos + ahead]?, pos)⟩

/-- The text goes on with `lead`. -/
def startsWith (lead : List Char) : Scan Bool :=
  ⟨fun text pos => .ok (some (lead.isPrefixOf (text.drop pos)), pos)⟩

/-- Move on by so many characters. -/
def advance (n : Nat) : Scan Unit :=
  ⟨fun text pos => if pos + n ≤ text.length then .ok (some (), pos + n) else .error .beyond⟩

/-- Move back by one character. -/
def retreat : Scan Unit :=
  ⟨fun _ pos => if 1 ≤ pos then .ok (some (), pos - 1) else .error .underflow⟩

/-- The characters from `start` up to the position. -/
def slice (start : Nat) : Scan (List Char) :=
  ⟨fun text pos =>
    if start ≤ pos ∧ pos ≤ text.length then .ok (some ((text.take pos).drop start), pos)
    else .error .reversed⟩

/-- A scan that must move on when it finds something. -/
def moving {α : Type} (m : Scan α) : Scan α := do
  let start ← here
  let a ← m
  if start < (← here) then return a else fail .idle

/-! ## Loops over characters -/

/-- Move on over characters with the property. -/
def skipWhile (p : Char → Bool) : (fuel : Nat) → Scan Unit
  | 0 => fail .spent
  | fuel + 1 => do
    if (← peek 0).any p then
      advance 1
      skipWhile p fuel

/-- Move on over blanks, and over the character if it stands there. -/
def eat (c : Char) (fuel : Nat) : Scan Bool := do
  skipWhile isBlank fuel
  if (← peek 0) = some c then
    advance 1
    return true
  else return false

/-- Move on behind the bracket that closes, with so many open. -/
def skipBalanced (open_ close : Char) : (fuel depth : Nat) → Scan Unit
  | 0, _ => fail .spent
  | fuel + 1, depth => do
    match ← peek 0 with
    | none => refuse
    | some c =>
      advance 1
      if c = open_ then skipBalanced open_ close fuel (depth + 1)
      else if c = close then
        if depth = 0 then fail .underflow
        else if depth - 1 = 0 then return
        else skipBalanced open_ close fuel (depth - 1)
      else skipBalanced open_ close fuel depth

/-- An identifier, which may be empty. -/
def ident (fuel : Nat) : Scan (List Char) := do
  let start ← here
  skipWhile isNameChar fuel
  slice start

/-- The name with the identifiers that follow it behind dots. -/
def dotted : (fuel : Nat) → (front : List Char) → Scan (List Char)
  | 0, _ => fail .spent
  | fuel + 1, front => do
    if (← peek 0) = some '.' ∧ (← peek 1).any isNameStart then
      advance 1
      let more ← ident fuel
      dotted fuel (front ++ '.' :: more)
    else return front

/-- A name: an identifier and those behind dots. -/
def fullName (fuel : Nat) : Scan (List Char) := do
  let first ← ident fuel
  dotted fuel first

/-! ## Parts of types -/

/-- A text between two quotes. -/
def quoted (quote : Char) (fuel : Nat) : Scan DocType := do
  advance 1
  let start ← here
  skipWhile (· != quote) fuel
  let value ← slice start
  if ← eat quote fuel then return .stringLiteral (String.ofList value) else refuse

/-- The path of a table, with the four characters all paths start with. -/
def table (fuel : Nat) : Scan DocType := do
  let start ← here
  advance 4
  skipWhile isTableChar fuel
  let value ← slice start
  return .stringLiteral (String.ofList value)

/-- A question mark with one of these behind it, or nothing, stands alone. -/
def isDelimiter : Option Char → Bool
  | none => true
  | some c => c == ',' || c == '>' || c == ')' || c == ']' || c == '|' || c == '='

/-- A type behind its question mark. -/
def questioned (type : Scan DocType) (fuel : Nat) : Scan DocType := do
  skipWhile isBlank fuel
  if isDelimiter (← peek 0) then return .unknown
  else
    let t ← type
    return .nullable t

/-- A function type, from behind the bracket that opens its parameters. -/
def parameters (returned : Scan DocType) (fuel : Nat) : Scan DocType := do
  retreat
  skipBalanced '(' ')' fuel 0
  if ← eat ':' fuel then
    let _ ← returned
    return .function
  else return .function

/-- A type from behind its name, with arguments if there is a mark that opens them. -/
def arguments (name : List Char) (list : Scan (List DocType)) (fuel : Nat) : Scan DocType := do
  skipWhile isBlank fuel
  if ← startsWith ['.', '<'] then
    advance 2
    let ts ← list
    return .application (.name (String.ofList name)) ts
  else if (← peek 0) = some '<' then
    advance 1
    let ts ← list
    return .application (.name (String.ofList name)) ts
  else return .name (String.ofList name)

/-! ## Types -/

mutual

/-- Types separated by bars; one alone is no union. -/
def union : (fuel : Nat) → Scan DocType
  | 0 => fail .spent
  | fuel + 1 => moving do
    let t ← unary fuel
    let ts ← members fuel
    return if ts.isEmpty then t else .union (t :: ts)

/-- The further members of a union. -/
def members : (fuel : Nat) → Scan (List DocType)
  | 0 => fail .spent
  | fuel + 1 => do
    if ← eat '|' fuel then
      let t ← unary fuel
      let ts ← members fuel
      return t :: ts
    else return []

/-- A type behind its leading marks. -/
def unary : (fuel : Nat) → Scan DocType
  | 0 => fail .spent
  | fuel + 1 => moving do
    skipWhile isBlank fuel
    if ← eat '?' fuel then questioned (unary fuel) fuel
    else if ← eat '!' fuel then unary fuel
    else if ← startsWith ['.', '.', '.'] then
      advance 3
      unary fuel
    else posted fuel

/-- A type with the marks after it. -/
def posted : (fuel : Nat) → Scan DocType
  | 0 => fail .spent
  | fuel + 1 => moving do
    let t ← primary fuel
    marks fuel t

/-- The marks after a type. -/
def marks : (fuel : Nat) → DocType → Scan DocType
  | 0, _ => fail .spent
  | fuel + 1, t => do
    skipWhile isBlank fuel
    if ← startsWith ['[', ']'] then
      advance 2
      marks fuel (.application (.name "Array") [t])
    else if (← peek 0) = some '=' then
      advance 1
      marks fuel (.optional t)
    else return t

/-- A type without marks. -/
def primary : (fuel : Nat) → Scan DocType
  | 0 => fail .spent
  | fuel + 1 => moving do
    skipWhile isBlank fuel
    match ← peek 0 with
    | none => refuse
    | some c =>
      if c = '(' then
        advance 1
        let t ← union fuel
        if ← eat ')' fuel then return t else refuse
      else if c = '*' then
        advance 1
        return .all
      else if c = '\x22' ∨ c = '\x27' then quoted c fuel
      else if c = '{' then
        skipBalanced '{' '}' fuel 0
        return .record
      else if c = '[' then
        advance 1
        let ts ← list ']' fuel
        return .array ts
      else if ← startsWith "db:/".toList then table fuel
      else if isNameStart c then named fuel
      else refuse

/-- A name, its arguments if it has any, or a function type. -/
def named : (fuel : Nat) → Scan DocType
  | 0 => fail .spent
  | fuel + 1 => moving do
    let name ← fullName fuel
    if ← (if name = "function".toList then eat '(' fuel else pure false) then
      parameters (unary fuel) fuel
    else arguments name (list '>' fuel) fuel

/-- Types separated by commas, up to and including `close`. -/
def list (close : Char) : (fuel : Nat) → Scan (List DocType)
  | 0 => fail .spent
  | fuel + 1 => moving do
    let t ← union fuel
    let ts ← items fuel
    if ← eat close fuel then return t :: ts else refuse

/-- The further members of a list. -/
def items : (fuel : Nat) → Scan (List DocType)
  | 0 => fail .spent
  | fuel + 1 => do
    if ← eat ',' fuel then
      let t ← union fuel
      let ts ← items fuel
      return t :: ts
    else return []

end

/-- The expression that the whole text is. -/
def whole (fuel : Nat) : Scan DocType := do
  let t ← union fuel
  skipWhile isBlank fuel
  if ← atEnd then return t else refuse

end Scan

end ScriptAtlas.DocType
