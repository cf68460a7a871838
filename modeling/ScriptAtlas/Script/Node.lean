/-
The syntax tree of a script. A node knows the stretch of the source it covers,
the role it plays in the node around it, and its named parts in source order;
marks and blanks between them are not kept. Comments are nodes like any other,
so an analysis that does not care for them asks for the parts without them.
-/
import ScriptAtlas.Script.Kind

namespace ScriptAtlas.Script

/-- A place in a source: bytes before it, lines before it, and bytes before it on its line. -/
structure Spot where
  byte : Nat := 0
  line : Nat := 0
  column : Nat := 0
  deriving DecidableEq, Repr, Inhabited

namespace Spot

/-- The place right after a character. Only a line feed ends a line. -/
def step (s : Spot) (c : Char) : Spot :=
  if c = '\n' then ⟨s.byte + c.utf8Size, s.line + 1, 0⟩
  else ⟨s.byte + c.utf8Size, s.line, s.column + c.utf8Size⟩

/-- The place right after a text. -/
def after (s : Spot) (text : List Char) : Spot := text.foldl step s

end Spot

/-- A node of the syntax tree. `text` is its source text when it has no parts. -/
structure Node where
  kind : Kind
  role : Option Role := none
  start : Spot
  stop : Spot
  text : String := ""
  parts : List Node := []
  deriving Repr, Inhabited

namespace Node

/-- The parts that are not comments. -/
def named (n : Node) : List Node := n.parts.filter (·.kind != .comment)

/-- The part that plays a role. -/
def child? (n : Node) (r : Role) : Option Node := n.parts.find? (·.role == some r)

mutual

/-- The node and everything in it that is of a kind, in source order. -/
def ofKind (k : Kind) : Node → List Node
  | ⟨kind, role, start, stop, text, parts⟩ =>
    (if kind = k then [⟨kind, role, start, stop, text, parts⟩] else []) ++ allOfKind k parts

/-- The nodes of a kind in a list of nodes. -/
def allOfKind (k : Kind) : List Node → List Node
  | [] => []
  | n :: ns => ofKind k n ++ allOfKind k ns

end

end Node

end ScriptAtlas.Script
