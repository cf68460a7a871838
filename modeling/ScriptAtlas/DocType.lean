/-
Type expressions of doc comments, as written: names, applications, tuples,
unions, and the marks for optional and nullable. `DocType.type` says which
type an expression stands for. A union stands for `any`, and what the library
does not model (records, a lone question mark) stands for `unknown`.
-/
import ScriptAtlas.TypeInfo

namespace ScriptAtlas

/-- A type expression. -/
inductive DocType where
  /-- A possibly dotted name. -/
  | name (value : String)
  /-- A base applied to arguments. -/
  | application (base : DocType) (args : List DocType)
  /-- A tuple in square brackets. -/
  | array (items : List DocType)
  /-- A value that may be left out. -/
  | optional (of : DocType)
  /-- A value that may be null. -/
  | nullable (of : DocType)
  /-- One of several types. -/
  | union (items : List DocType)
  /-- A quoted text, or the path of a database table. -/
  | stringLiteral (value : String)
  /-- Any value at all. -/
  | all
  /-- A question mark on its own. -/
  | unknown
  /-- A record, whose fields are not read. -/
  | record
  /-- A function type, whose signature is not kept. -/
  | function
  deriving Repr, Inhabited

namespace DocType

/-- Names that are written in lower case however they were spelled. -/
def primitives : List String :=
  ["string", "number", "boolean", "bigint", "undefined", "null", "symbol"]

/-- The type of a plain name. A bare `Array` is an array of something unknown. -/
def namedType (n : String) : TypeInfo :=
  if n = "Array" then TypeInfo.unknown.intoArray 1
  else
    let low := String.ofList (n.toList.map Char.toLower)
    if primitives.contains low then .named low else .named n

/-- The table that a first generic argument names. -/
def tableOf (args : List TypeInfo) : Option String :=
  match args with
  | [] => none
  | a :: _ => if "db:/".toList.isPrefixOf a.name.toList then
      some (String.ofList (a.name.toList.drop 4)) else none

mutual

/-- The type an expression stands for. -/
def type : DocType → TypeInfo
  | .name n => namedType n
  | .application (.name n) args =>
    if n = "Array" then (firstType args).intoArray 1
    else
      let as := types args
      { name := n, genericArgs := as, dbTableRef := tableOf as }
  | .application _ _ => .unknown
  | .array items => (firstType items).intoArray 1
  | .optional t => (type t).intoOptional
  | .nullable t => type t
  | .union _ => .any
  | .stringLiteral v => .named v
  | .all => .any
  | .unknown => .unknown
  | .record => .unknown
  | .function => .named "Function"

/-- The type of the first of several expressions. -/
def firstType : List DocType → TypeInfo
  | [] => .unknown
  | t :: _ => type t

/-- The types of several expressions. -/
def types : List DocType → List TypeInfo
  | [] => []
  | t :: ts => type t :: types ts

end

end DocType

end ScriptAtlas
