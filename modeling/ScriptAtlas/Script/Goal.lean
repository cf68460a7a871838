/-
What can be asked of the grammar. The rules of the grammar refer to each other
in circles; each is written as a function of the answers to these goals, and
the circle is closed in one place.
-/
import ScriptAtlas.Script.Pattern
import ScriptAtlas.Script.Reader

namespace ScriptAtlas.Script

/-- Where an expression stands. `ends` says that a statement may end right after it, so that a line
break counts; `noIn` that the word `in` after it is no operator. -/
structure Context where
  ends : Bool := false
  noIn : Bool := false
  deriving DecidableEq, Repr, Inhabited

/-- A goal of the grammar. -/
inductive Goal where
  /-- A statement; with `html` a markup comment may come before it. -/
  | statement (html : Bool)
  /-- An expression without a comma. -/
  | expression (context : Context)
  /-- What stands between two operators. -/
  | operand (context : Context)
  /-- What a new object is made from. -/
  | constructed (context : Context)
  /-- An element of markup. -/
  | element
  deriving DecidableEq, Repr

/-- Answers to the goals. -/
abbrev Answers := Goal → Reader Pieces

namespace Reader

/-- Change the last piece found, or fail. -/
def convert (f : Shape → Option Shape) (r : Reader Pieces) : Reader Pieces := do
  let ps ← r
  let s ← ofOption ps.getLast?
  let t ← ofOption (f s)
  return ps.dropLast ++ [t]

/-- Items with commas between them, where items may be left out. -/
def items (item : Reader Pieces) : Reader Pieces := do
  let first ← optional item
  let more ← many do return (← mark ",") ++ (← optional item)
  return first ++ more

/-- Items with commas between them, of which there is at least one. -/
def items1 (item : Reader Pieces) : Reader Pieces := do
  let first ← item
  let more ← many do return (← mark ",") ++ (← item)
  return first ++ more

/-- One or more expressions with commas between them. -/
def expressions (self : Answers) (context : Context) : Reader Pieces := do
  let first ← self (.expression context)
  let more ← many do return (← mark ",") ++ (← self (.expression context))
  return if more.isEmpty then first else Pieces.wrap .sequence (first ++ more)

/-- Expressions in parentheses. -/
def parenthesized (self : Answers) : Reader Pieces := do
  return Pieces.wrap .parenthesized
    ((← mark "(") ++ (← expressions self {}) ++ (← mark ")"))

/-- An expression after three dots. -/
def spread (self : Answers) : Reader Pieces := do
  return Pieces.wrap .spread ((← mark "...") ++ (← self (.expression {})))

/-- The arguments of a call. -/
def arguments (self : Answers) : Reader Pieces := do
  return Pieces.wrap .arguments
    ((← mark "(") ++ (← items (spread self <|> self (.expression {}))) ++ (← mark ")"))

end Reader

end ScriptAtlas.Script
