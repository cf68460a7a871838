/-
What a reader of scripts builds: a tree whose texts, put one after another,
are the source. Every blank and every mark is in it, so a place in the source
never has to be stored. Laying a shape out from its first place gives the
syntax tree, and its nodes are ordered and nested because they are laid out in
one pass.
-/
import ScriptAtlas.Script.Node

namespace ScriptAtlas.Script

/-- A piece of the source: a blank stretch, a mark without a name, a named text, or a named node
made of pieces. -/
inductive Shape where
  | blank (text : List Char)
  | mark (text : List Char)
  | leaf (kind : Kind) (role : Option Role) (first : Char) (rest : List Char)
  | node (kind : Kind) (role : Option Role) (parts : List Shape)
  deriving Repr, Inhabited

/-- Pieces that follow one another in the source. -/
abbrev Pieces := List Shape

namespace Shape

mutual

/-- The source text of a piece. -/
def text : Shape → List Char
  | blank t => t
  | mark t => t
  | leaf _ _ c t => c :: t
  | node _ _ ps => texts ps

/-- The source text of pieces. -/
def texts : Pieces → List Char
  | [] => []
  | p :: ps => text p ++ texts ps

end

mutual

/-- The nodes a piece has when it is laid out from a place, and the place after it. -/
def place (s : Spot) : Shape → List Node × Spot
  | blank t => ([], s.after t)
  | mark t => ([], s.after t)
  | leaf kind role c t =>
    let stop := s.after (c :: t)
    ([{ kind, role, start := s, stop, text := String.ofList (c :: t) }], stop)
  | node kind role ps =>
    let (parts, stop) := placeAll s ps
    ([{ kind, role, start := s, stop, parts }], stop)

/-- The nodes of pieces laid out one after another, and the place after them. -/
def placeAll (s : Spot) : Pieces → List Node × Spot
  | [] => ([], s)
  | p :: ps =>
    let (ns, mid) := place s p
    let (rest, stop) := placeAll mid ps
    (ns ++ rest, stop)

end

/-- The kind of a named piece. -/
def kind? : Shape → Option Kind
  | leaf k .. => some k
  | node k .. => some k
  | _ => none

/-- The piece only separates others: it is blank or a comment. -/
def isGap : Shape → Bool
  | blank _ => true
  | leaf k .. => k == .comment || k == .htmlComment
  | _ => false

/-- The same piece in a role. -/
def withRole (r : Role) : Shape → Shape
  | leaf k _ c t => leaf k (some r) c t
  | node k _ ps => node k (some r) ps
  | s => s

/-- The last character of a piece. -/
def lastChar? (s : Shape) : Option Char := s.text.getLast?

end Shape

namespace Pieces

/-- The pieces as one node. What only separates it from the text before stays in front of it. -/
def wrap (k : Kind) (ps : Pieces) : Pieces :=
  ps.takeWhile Shape.isGap ++ [.node k none (ps.dropWhile Shape.isGap)]

/-- The kind of the last piece. -/
def kind? (ps : Pieces) : Option Kind := ps.getLast?.bind Shape.kind?

/-- The pieces with the last one changed. -/
def mapMain (f : Shape → Shape) (ps : Pieces) : Pieces :=
  match ps.getLast? with
  | some s => ps.dropLast ++ [f s]
  | none => []

/-- The pieces with the last one in a role. -/
def withRole (r : Role) (ps : Pieces) : Pieces := mapMain (.withRole r) ps

end Pieces

end ScriptAtlas.Script
