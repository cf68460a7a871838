/-
Which overload a call fits. The overloads are tried in stored order, and a
call that fits none is explained by the overload it misses least.
-/
import ScriptAtlas.Declaration

namespace ScriptAtlas

/-- How the arguments of a call are judged. With `allowUnknown` an argument of type `unknown` fits
every parameter. -/
structure ResolveOptions where
  allowUnknown : Bool := false
  deriving DecidableEq, Repr, Inhabited

/-- One reason why a call does not fit a function. Arguments count from 0. -/
inductive Mismatch where
  | unexpected (index : Nat)
  | wrongType (index : Nat) (param : String) (expected actual : TypeInfo)
  | wrongCount (required total given : Nat)
  deriving DecidableEq, Repr

namespace Mismatch

/-- The reason in words. -/
def message : Mismatch → String
  | unexpected i => s!"Argument {i + 1}: unexpected"
  | wrongType i param expected actual =>
    s!"Argument {i + 1} ('" ++ param ++ "'): expected " ++ expected.text ++ ", got " ++ actual.text
  | wrongCount required total given =>
    s!"Incorrect number of arguments: expected {required}-{total}, got {given}"

end Mismatch

namespace Overload

/-- An argument of that type may stand for the parameter. Expressions whose type is not known are
`any` and fit everywhere, and `null` fits every optional parameter. -/
def accepts (options : ResolveOptions) (p : Param) (actual : TypeInfo) : Bool :=
  actual.isAny || (actual.isNull && p.optional) ||
    (options.allowUnknown && actual.name == "unknown") || actual.assignable p.type

/-- The arguments that fit no parameter, from argument `i` on. -/
def badArguments (options : ResolveOptions) : Nat → List Param → List TypeInfo → List Mismatch
  | _, _, [] => []
  | i, [], _ :: as => .unexpected i :: badArguments options (i + 1) [] as
  | i, p :: ps, a :: as =>
    if accepts options p a then badArguments options (i + 1) ps as
    else .wrongType i p.name p.type a :: badArguments options (i + 1) ps as

/-- The number of arguments, if it is out of range. -/
def badCount (f : Function) (given : Nat) : List Mismatch :=
  if given < f.requiredCount || f.params.length < given then
    [.wrongCount f.requiredCount f.params.length given]
  else []

/-- Why the call does not fit the function; nothing when it fits. -/
def mismatches (options : ResolveOptions) (actuals : List TypeInfo) (f : Function) :
    List Mismatch :=
  badArguments options 0 f.params actuals ++ badCount f actuals.length

/-- The shortest list, the first one of several. -/
def shortest : List (List Mismatch) → List Mismatch
  | [] => []
  | l :: ls => ls.foldl (fun best l => if l.length < best.length then l else best) l

/-- Whether some function takes the call; if none does, why the best one does not. -/
def resolve (options : ResolveOptions) (actuals : List TypeInfo) (fs : List Function) :
    Except (List Mismatch) Unit :=
  let all := fs.map (mismatches options actuals)
  if all.any List.isEmpty then .ok () else .error (shortest all)

end Overload

end ScriptAtlas
