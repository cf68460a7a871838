/-
Which files of a folder belong to a workspace. A walk goes through a folder
and leaves out what the ignore rules leave out, with all that is below it.
The folder it starts in is never left out. The files it meets are kept if the
configuration includes them and the caller asks for them. They come in the
order of their paths, name by name.
-/
import ScriptAtlas.Config
import ScriptAtlas.IgnoreRule
import ScriptAtlas.Ordered

namespace ScriptAtlas.Discovery

/-- The search cannot start. -/
inductive Fault where
  | missing (path : String)
  deriving DecidableEq, Repr

/-- What is said of the fault. -/
def Fault.message : Fault → String
  | missing path => "Path does not exist: " ++ path

/-- The walk from the folder `start` reaches the file at `start ++ names`: no rule leaves it out,
nor a folder on the way to it. -/
def reaches (rules : List (List (Route × List IgnoreRule))) (start names : Route) : Bool :=
  !IgnoreRule.leavesOut rules (start ++ names) false &&
    ((FileTree.above names).drop 1).all fun folder =>
      !IgnoreRule.leavesOut rules (start ++ folder) true

/-- The names from the folder to each file below it. -/
def filesBelow (t : FileTree) (start : Route) : List Route :=
  t.files.filterMap fun (r, _) =>
    if start.isPrefixOf r then some (r.drop start.length) else none

/-- The path of a file below a folder. -/
def pathBelow (start : String) (names : Route) : String := names.foldl Path.join start

/-- Routes in order, name by name. -/
def inOrder (routes : List Route) : List Route := @Ordered.sort Route List.instLE _ routes

/-- The files below a path in order, or the file at it, that the configuration includes
and the caller wants to keep. -/
def find (t : FileTree) (c : Config) (start : String) (keep : String → Bool) :
    Except Fault (List String) :=
  match t.resolve start with
  | .error _ => .error (.missing start)
  | .ok route =>
    if t.isFolder route then
      let rules := IgnoreRule.allRules t
      let found := (filesBelow t route).filter fun names =>
        c.shouldInclude ("/".intercalate names) && keep (pathBelow start names) &&
          reaches rules route names
      .ok ((inOrder found).map (pathBelow start))
    else
      let wanted := (Path.fileName? start).any c.shouldInclude && keep start
      .ok (if wanted then [start] else [])

end ScriptAtlas.Discovery
