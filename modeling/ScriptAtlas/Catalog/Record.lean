/-
Records in the catalog's JSON. A record is an object with the fields it is
known to have, or the list of their values in the order of the fields. A field
it has twice is an error, a field that is not known is not looked at.
-/
import ScriptAtlas.JsonValue

namespace ScriptAtlas.Record

/-- A field of a record. One with a default may be missing at the end of a list. -/
structure Field where
  name : String
  hasDefault : Bool := false
  deriving DecidableEq, Repr

/-- The values of a field among the members of an object. -/
def valuesOf (name : String) (members : List (Option String × JsonValue)) : List JsonValue :=
  (members.filter (·.1 == some name)).map (·.2)

/-- The value of a field, which may be missing and may not be repeated. -/
def single? : List JsonValue → Option (Option JsonValue)
  | [] => some none
  | [v] => some (some v)
  | _ => none

/-- The values of fields that are listed in order. -/
def fromList : List Field → List JsonValue → Option (List (Option JsonValue))
  | [], [] => some []
  | [], _ :: _ => none
  | _ :: fs, v :: vs => (fromList fs vs).map (some v :: ·)
  | f :: fs, [] => if f.hasDefault then (fromList fs []).map (none :: ·) else none

/-- The values of the fields of a record. -/
def read (fields : List Field) : JsonValue → Option (List (Option JsonValue))
  | .object members =>
    if members.all (·.1.isSome) then fields.mapM fun f => single? (valuesOf f.name members) else none
  | .array items => fromList fields items
  | _ => none

/-! ## Values of fields -/

/-- A value that may be missing or null. -/
def optional {α : Type} (read : JsonValue → Option α) : Option JsonValue → Option (Option α)
  | none => some none
  | some .null => some none
  | some v => (read v).map some

/-- A value that has to be there. -/
def required {α : Type} (read : JsonValue → Option α) : Option JsonValue → Option α
  | none => none
  | some v => read v

/-- A value or a list of values. What can be read as a list is one. -/
def oneOrMany {α : Type} (read : JsonValue → Option α) (v : JsonValue) : Option (List α) :=
  let many := match v with
    | .array items => items.mapM read
    | _ => none
  many <|> (read v).map ([·])

/-- A list of values that may be missing, but not null. -/
def listed {α : Type} (read : JsonValue → Option α) : Option JsonValue → Option (List α)
  | none => some []
  | some v => oneOrMany read v

/-- A string. -/
def string? : JsonValue → Option String
  | .string text => text
  | _ => none

/-- A text: a string, or an object that holds one as character data. Anything else is read as no
text. -/
def text (v : JsonValue) : Option String :=
  match v with
  | .string t => t
  | .object members =>
    match valuesOf "__cdata" members with
    | [.string t] => t
    | _ => none
  | _ => none

/-- A flag: true, or the word for it in any case. -/
def flag : Option JsonValue → Bool
  | some (.bool b) => b
  | some (.string (some s)) => s.toList.map Char.toLower == "true".toList
  | _ => false

end ScriptAtlas.Record
