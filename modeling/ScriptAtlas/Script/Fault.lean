/-
Where a text that is no script is at fault: at the start of the best repair.
-/
import ScriptAtlas.Script.Repair

namespace ScriptAtlas.Script

/-- The place of a fault, counted from 1, the column in bytes. -/
structure Fault where
  line : Nat
  column : Nat
  deriving DecidableEq, Repr, Inhabited

namespace Fault

/-- The fault in words. -/
def message (f : Fault) : String := s!"syntax error at line {f.line}, column {f.column}"

/-- The fault at a place. -/
def atSpot (s : Spot) : Fault := ⟨s.line + 1, s.column + 1⟩

/-- The number of repairs that are weighed together. -/
def rounds : Nat := 3

/-- The fault of a text that is no script. Where all of it can be read, a name with a default value
stands in an object. -/
def find (text : String) : Fault :=
  let ls := Lexeme.ofText text.toList
  match Lexeme.halt? ls with
  | none =>
    match (script (.ofText text.toList)).found with
    | none => atSpot {}
    | some (ps, _) =>
      let members := ((treeOf ps).ofKind .object).flatMap (·.parts)
      match members.filter (·.kind == .defaultedShorthand) with
      | n :: _ => atSpot n.start
      | [] => atSpot {}
  | some ⟨done, stuck⟩ =>
    let rest := ls.drop done
    match Repair.best rounds ((Repair.leaveOutAll rest).cost rest (stuck - done)) ls with
    | some way => atSpot (Spot.after {} way.lead)
    | none => atSpot {}

end Fault

/-- The script that a text is, or its fault. -/
def Source.parse (text : String) : Except Fault Source :=
  match Source.parse? text with
  | some s => .ok s
  | none => .error (Fault.find text)

end ScriptAtlas.Script
