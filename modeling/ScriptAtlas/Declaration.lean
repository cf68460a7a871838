/-
What a script or the platform declares: functions with their parameters,
variables, constructor-style classes, and the named objects that hold them.
All of it is plain data with decidable equality.
-/
import ScriptAtlas.TypeInfo

namespace ScriptAtlas

/-! ## Texts that stand in for a description that was not written -/

namespace Placeholder

/-- For a variable. -/
def ofVariable : String := "No description provided for this variable"

/-- For a function or method. -/
def ofFunction : String := "No description provided for this function / method"

/-- For a class. -/
def ofClass : String := "No description provided for this class"

/-- For a parameter. -/
def ofParam : String := "No description provided for this parameter"

end Placeholder

/-! ## Declarations -/

/-- Where a declaration starts. Lines and columns count from 0, columns in bytes. -/
structure Location where
  file : String
  line : UInt32
  column : UInt32
  deriving DecidableEq, Repr, Inhabited

/-- A parameter of a function. -/
structure Param where
  name : String
  type : TypeInfo
  description : String
  optional : Bool
  deriving DecidableEq, Repr, Inhabited

/-- A parameter that the code has and no doc comment mentions. -/
def Param.undocumented (name : String) (optional : Bool) : Param where
  name := name
  type := if optional then TypeInfo.unknown.intoOptional else .unknown
  description := Placeholder.ofParam
  optional := optional

/-- A function, a method, or a function of the platform. -/
structure Function where
  name : String
  params : List Param
  returns : TypeInfo
  description : String
  location : Option Location
  deriving DecidableEq, Repr, Inhabited

namespace Function

/-- The functions agree in name, parameters and return type. -/
def sameSignature (f g : Function) : Bool :=
  f.name == g.name && f.params == g.params && f.returns == g.returns

/-- The number of arguments a call must give at least: only trailing optional parameters can be
left out. -/
def requiredCount (f : Function) : Nat :=
  (f.params.reverse.dropWhile (·.optional)).length

end Function

/-- A variable, constant, property or field. -/
structure Variable where
  name : String
  type : TypeInfo
  description : String
  deprecated : Option String
  location : Option Location
  deriving DecidableEq, Repr, Inhabited

/-- A constructor-style class: a function whose body assigns to members of `this`. `base` is the
class it extends. -/
structure Class where
  name : String
  description : String
  params : List Param
  methods : List Function
  vars : List Variable
  base : Option String
  location : Option Location
  deriving DecidableEq, Repr, Inhabited

/-- What one script declares at its top level, each list in source order. -/
structure Declarations where
  functions : List Function := []
  vars : List Variable := []
  classes : List Class := []
  deriving DecidableEq, Repr, Inhabited

namespace Declarations

/-- The number of declarations. -/
def size (d : Declarations) : Nat :=
  d.functions.length + d.vars.length + d.classes.length

/-- Nothing is declared. -/
def isEmpty (d : Declarations) : Bool :=
  d.functions.isEmpty && d.vars.isEmpty && d.classes.isEmpty

end Declarations

/-- A named object a script can use: a service of the platform, or the project's globals. -/
structure ScriptObject where
  name : String
  functions : List Function := []
  constants : List Variable := []
  properties : List Variable := []
  description : String := ""
  deriving DecidableEq, Repr, Inhabited

/-- The functions of that name, in stored order. -/
def ScriptObject.overloads (o : ScriptObject) (name : String) : List Function :=
  o.functions.filter (·.name == name)

end ScriptAtlas
