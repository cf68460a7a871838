/-
The grammar, with the circle of its rules closed. Each round of the circle
costs one unit of the depth that is allowed, and the depth allowed for a text
is more than its length can use up.
-/
import ScriptAtlas.Script.Statement

namespace ScriptAtlas.Script

/-- The rule for a goal, given answers to the goals it refers to. -/
def rule (self : Answers) : Goal → Reader Pieces
  | .statement html => Reader.statement self html
  | .expression context => Reader.expression self context
  | .operand context => Reader.operand self context
  | .constructed context => Reader.constructed self context
  | .element => Reader.element self

/-- The answers that come from at most `depth` rounds of the rules. -/
def answers : (depth : Nat) → Answers
  | 0, _ => Reader.fail
  | depth + 1, goal => rule (answers depth) goal

/-- The depth that is allowed for a text of that length. -/
def depthFor (length : Nat) : Nat := 8 * length + 64

/-- The line for the operating system at the start of a script. -/
def shebang : Reader Pieces :=
  let line (s : List Char) : Option Split :=
    if ['#', '!'].isPrefixOf s then some (s.takeWhile (· != '\n'), s.dropWhile (· != '\n')) else none
  Reader.optional (Reader.token line (Reader.named .shebang))

/-- The statements of a script, as many as can be read, and the gap after them. -/
def script : Reader Pieces := fun i =>
  let read : Reader Pieces := do
    let lead ← shebang
    return lead ++ (← Reader.statements (answers (depthFor i.left)))
  read i

end ScriptAtlas.Script
