/-
The entries of the platform's catalog as it lists them, with type codes and
texts not yet made into types and descriptions.
-/
import ScriptAtlas.Catalog.Record

namespace ScriptAtlas.Catalog

open Record

/-- A parameter of a function of the platform. -/
structure ParamEntry where
  name : String
  typecode : Option String
  description : Option String
  optional : Bool
  deriving DecidableEq, Repr, Inhabited

/-- A function of the platform. -/
structure FunctionEntry where
  name : String
  params : List ParamEntry
  returns : Option String
  description : Option String
  deriving DecidableEq, Repr, Inhabited

/-- A constant or property of the platform. -/
structure MemberEntry where
  name : String
  typecode : Option String
  description : Option String
  isDeprecated : Bool
  deprecated : Option String
  deriving DecidableEq, Repr, Inhabited

/-- An object of the platform. -/
structure ObjectEntry where
  scriptingName : Option String
  qualifiedName : Option String
  extendsComponent : Option String
  description : Option String
  functions : List FunctionEntry
  constants : List MemberEntry
  properties : List MemberEntry
  deriving DecidableEq, Repr, Inhabited

/-- The text of a field, which may be missing. -/
def textField (v : Option JsonValue) : Option String := v.bind text

/-- The type code in a return section. -/
def returnCode? (v : JsonValue) : Option (Option String) := do
  let [code] ← read [{ name := "_typecode" }] v | none
  Record.optional string? code

/-- The type code of a return section that may be missing. -/
def returnField (v : Option JsonValue) : Option (Option String) := do
  return (← Record.optional returnCode? v).join

/-- The first text in a section of descriptions. -/
def descriptions? (v : JsonValue) : Option (Option String) := do
  let [list] ← read [{ name := "description" }] v | none
  let texts ← Record.optional (oneOrMany fun v => some (text v)) list
  return (texts.getD []).findSome? id

/-- The first text of a section of descriptions that may be missing. -/
def descriptionsField (v : Option JsonValue) : Option (Option String) := do
  return (← Record.optional descriptions? v).join

/-- A section that holds one or many entries of a kind. -/
def section? {α : Type} (name : String) (entry : JsonValue → Option α) (v : JsonValue) :
    Option (List α) := do
  let [list] ← read [{ name, hasDefault := true }] v | none
  listed entry list

/-- The entries of a section that may be missing. -/
def sectionField {α : Type} (name : String) (entry : JsonValue → Option α) (v : Option JsonValue) :
    Option (List α) := do
  return (← Record.optional (section? name entry) v).getD []

/-- The parameter that a record describes. -/
def ParamEntry.read? (v : JsonValue) : Option ParamEntry := do
  let [name, typecode, description, optional] ← read
    [{ name := "_name" }, { name := "_typecode" }, { name := "description" },
      { name := "_optional", hasDefault := true }] v | none
  return {
    name := ← required string? name
    typecode := ← Record.optional string? typecode
    description := textField description
    optional := flag optional }

/-- The function that a record describes. -/
def FunctionEntry.read? (v : JsonValue) : Option FunctionEntry := do
  let [name, params, returns, descriptions] ← read
    [{ name := "_name" }, { name := "parameters" }, { name := "return" },
      { name := "descriptions" }] v | none
  return {
    name := ← required string? name
    params := ← sectionField "parameter" ParamEntry.read? params
    returns := ← returnField returns
    description := ← descriptionsField descriptions }

/-- The constant or property that a record describes. -/
def MemberEntry.read? (v : JsonValue) : Option MemberEntry := do
  let [name, returns, descriptions, isDeprecated, deprecated] ← read
    [{ name := "_name" }, { name := "return" }, { name := "descriptions" },
      { name := "_deprecated", hasDefault := true }, { name := "deprecated" }] v | none
  return {
    name := ← required string? name
    typecode := ← returnField returns
    description := ← descriptionsField descriptions
    isDeprecated := flag isDeprecated
    deprecated := textField deprecated }

/-- The object that a record describes. -/
def ObjectEntry.read? (v : JsonValue) : Option ObjectEntry := do
  let [scripting, qualified, component, description, functions, constants, properties] ← read
    [{ name := "_scriptingName" }, { name := "_qualifiedName" }, { name := "_extendsComponent" },
      { name := "description" }, { name := "functions" }, { name := "constants" },
      { name := "properties" }] v | none
  return {
    scriptingName := ← Record.optional string? scripting
    qualifiedName := ← Record.optional string? qualified
    extendsComponent := ← Record.optional string? component
    description := textField description
    functions := ← sectionField "function" FunctionEntry.read? functions
    constants := ← sectionField "constant" MemberEntry.read? constants
    properties := ← sectionField "property" MemberEntry.read? properties }

end ScriptAtlas.Catalog
