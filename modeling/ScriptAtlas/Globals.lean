/-
The globals of a project: what all its globals files declare, merged. Functions
of one name stand together; one that repeats the signature of an earlier one
is dropped. Variables are properties and are never merged.
-/
import ScriptAtlas.Declaration

namespace ScriptAtlas

/-- The merged globals. -/
structure Globals where
  functions : List Function := []
  properties : List Variable := []
  deriving DecidableEq, Repr, Inhabited

namespace Globals

/-- The groups of functions with one more: it joins the group of its name, or starts one. -/
def addFunction (f : Function) : List (String × List Function) → List (String × List Function)
  | [] => [(f.name, [f])]
  | (name, fs) :: groups =>
    if name = f.name then (name, if fs.any (·.sameSignature f) then fs else fs ++ [f]) :: groups
    else (name, fs) :: addFunction f groups

/-- The functions grouped by name, in the order in which the names first appear. -/
def group (fs : List Function) : List (String × List Function) :=
  fs.foldl (fun groups f => addFunction f groups) []

/-- The merged globals of several files, in the given order. -/
def merge (files : List Declarations) : Globals where
  functions := (group (files.flatMap (·.functions))).flatMap (·.2)
  properties := files.flatMap (·.vars)

end Globals

end ScriptAtlas
