/-
Patterns: what stands left of an equals sign, in a parameter list or in a
declaration. A pattern is first read as the expression it looks like, because
only what follows tells the two apart. Here the expression is turned into the
pattern, unless it holds something that no pattern can.
-/
import ScriptAtlas.Script.Shape

namespace ScriptAtlas.Script

namespace Shape

/-- The role of a named piece. -/
def role? : Shape → Option Role
  | leaf _ r .. => r
  | node _ r _ => r
  | _ => none

/-- The last named piece that is no comment is of a kind that can be assigned to. -/
def endsInTarget (ps : Pieces) : Bool :=
  match (ps.filterMap kind?).filter (fun k => k != .comment && k != .htmlComment) |>.getLast? with
  | some k => k.isTarget
  | none => false

/-- The left side of an assignment is written without parentheses. -/
def leftIsTarget (ps : Pieces) : Bool :=
  match ps.find? (·.role? == some .left) with
  | some s => (s.kind?.map Kind.isTarget).getD false
  | none => false

mutual

/-- The pattern that an expression, or a piece of an array or object, stands for. -/
def toPattern : Shape → Option Shape
  | blank t => some (blank t)
  | mark t => some (mark t)
  | leaf k r c t =>
    match k with
    | .identifier | .undefinedWord | .comment | .htmlComment => some (leaf k r c t)
    | .shorthandName => some (leaf .shorthandPattern r c t)
    | _ => none
  | node k r ps =>
    match k with
    | .member | .subscript | .arrayPattern | .objectPattern | .defaultedShorthand =>
      some (node k r ps)
    | .array => (toPatterns ps).map (node .arrayPattern r)
    | .object => (toPatterns ps).map (node .objectPattern r)
    | .pair => (toPairParts ps).map (node .pairPattern r)
    | .spread =>
      match toPatterns ps with
      | some qs => if endsInTarget qs then some (node .restPattern r qs) else none
      | none => none
    | .assignment => if leftIsTarget ps then some (node .assignmentPattern r ps) else none
    | _ => none

/-- The patterns that pieces stand for. -/
def toPatterns : Pieces → Option Pieces
  | [] => some []
  | p :: ps =>
    match toPattern p, toPatterns ps with
    | some q, some qs => some (q :: qs)
    | _, _ => none

/-- The parts of a pair, of which only the value is turned into a pattern. -/
def toPairParts : Pieces → Option Pieces
  | [] => some []
  | p :: ps =>
    match (if p.role? = some .value then toPattern p else some p), toPairParts ps with
    | some q, some qs => some (q :: qs)
    | _, _ => none

end

/-- The pattern that an expression left of an equals sign stands for. -/
def toTarget (s : Shape) : Option Shape := do
  let p ← s.toPattern
  if (p.kind?.map Kind.isTarget).getD false then some p else none

/-- An object literal holds a name with a default value, which only a pattern may. -/
def isUnfinishedPattern : Shape → Bool
  | node .object _ ps => ps.any (·.kind? == some .defaultedShorthand)
  | _ => false

mutual

/-- No object literal in the piece holds a name with a default value. -/
def isFinished : Shape → Bool
  | node k r ps => !isUnfinishedPattern (node k r ps) && areFinished ps
  | _ => true

/-- The same for pieces. -/
def areFinished : Pieces → Bool
  | [] => true
  | p :: ps => isFinished p && areFinished ps

end

end Shape

end ScriptAtlas.Script
