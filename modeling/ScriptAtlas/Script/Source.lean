/-
A script that was read: its text, its syntax tree and its comments. A text
that is no script is refused, with the place of the fault.
-/
import ScriptAtlas.Comment
import ScriptAtlas.Script.Grammar
import ScriptAtlas.Text.Blank

namespace ScriptAtlas.Script

/-- A script with its syntax tree and its comments. -/
structure Source where
  text : String
  root : Node
  comments : CommentMap
  deriving Repr, Inhabited

/-- The text from a byte on. -/
def textFrom : (byte : Nat) → List Char → List Char
  | 0, s => s
  | _ + 1, [] => []
  | n + 1, c :: cs => textFrom (n + 1 - c.utf8Size) cs

/-- The comment that a node is. -/
def commentOf (text : List Char) (n : Node) : Comment where
  text := n.text
  startLine := n.start.line
  endLine := n.stop.line
  endsLine := ((textFrom n.stop.byte text).takeWhile (· != '\n')).all Text.isBlank

/-- The syntax tree of pieces that are a whole script. -/
def treeOf (ps : Pieces) : Node :=
  let (parts, stop) := Shape.placeAll {} ps
  { kind := .program, start := {}, stop, parts }

/-- The pieces of a text, if it is a script. -/
def pieces? (text : List Char) : Option Pieces :=
  match (script (.ofText text)).found with
  | some (ps, rest) => if rest.rest.isEmpty && Shape.areFinished ps then some ps else none
  | none => none

/-- The script that a text is. -/
def Source.parse? (text : String) : Option Source :=
  (pieces? text.toList).map fun ps =>
    let root := treeOf ps
    { text, root, comments := ⟨(root.ofKind .comment).map (commentOf text.toList)⟩ }

/-- The comment attached to what starts where the node starts. -/
def Source.commentFor (s : Source) (n : Node) : Option Comment :=
  s.comments.attachedTo n.start.line

end ScriptAtlas.Script
