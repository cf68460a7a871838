/-
The lexical scopes around a point of a script. Entering a block copies the
innermost frame, so what a block binds is gone when the block is left. The
frame of the file is never left.
-/
import ScriptAtlas.TypeInfo

namespace ScriptAtlas

/-- The bindings of one block. -/
abbrev Frame := List (String × TypeInfo)

namespace Frame

/-- The type bound to a name. -/
def get? (name : String) : Frame → Option TypeInfo
  | [] => none
  | (n, t) :: rest => if n = name then some t else get? name rest

/-- The frame with the name bound to the type, in place of what it was bound to. -/
def insert (name : String) (type : TypeInfo) : Frame → Frame
  | [] => [(name, type)]
  | (n, t) :: rest => if n = name then (n, type) :: rest else (n, t) :: insert name type rest

end Frame

/-- A stack of frames, which always has an innermost one. -/
structure ScopeStack where
  top : Frame := []
  below : List Frame := []
  deriving DecidableEq, Repr, Inhabited

namespace ScopeStack

/-- Enter a block. -/
def push (s : ScopeStack) : ScopeStack := ⟨s.top, s.top :: s.below⟩

/-- Leave the innermost block; the frame of the file stays. -/
def pop (s : ScopeStack) : ScopeStack :=
  match s.below with
  | [] => s
  | f :: fs => ⟨f, fs⟩

/-- Bind a name in the innermost block. -/
def bind (s : ScopeStack) (name : String) (type : TypeInfo) : ScopeStack :=
  { s with top := Frame.insert name type s.top }

/-- The innermost binding of a name. -/
def lookup (s : ScopeStack) (name : String) : Option TypeInfo :=
  (s.top :: s.below).findSome? (Frame.get? name)

/-- The number of frames. -/
def depth (s : ScopeStack) : Nat := s.below.length + 1

end ScopeStack

end ScriptAtlas
