/-
The catalog of the platform: its objects, and the names of its types. Every
object with both names gives its qualified name an alias; the aliases are
complete before the first type code is decoded. Interfaces, extensions of
components, the platform's own globals and value types are no objects of their
own.
-/
import ScriptAtlas.Catalog.Entry
import ScriptAtlas.SymbolIndex

namespace ScriptAtlas

/-- The objects and the aliases of a catalog. -/
structure Catalog where
  objects : List ScriptObject := []
  aliases : AliasTable := {}
  deriving Inhabited

namespace Catalog

/-- Why a text is no catalog. -/
inductive Fault where
  | malformed
  | noRuntime
  deriving DecidableEq, Repr, Inhabited

/-- The reason in words. -/
def Fault.message : Fault → String
  | malformed => "Failed to parse catalog JSON"
  | noRuntime => "Catalog has no servoydoc.runtime section"

/-- The deepest nesting of arrays and objects that is read. -/
def maxDepth : Nat := 127

/-- The objects that the value of the field for them holds. It stands three levels deep, and all of
it is read. -/
def entries? (v : JsonValue) : Option (List ObjectEntry) :=
  if v.isSound && v.depth + 3 ≤ maxDepth then Record.oneOrMany ObjectEntry.read? v else none

/-- The entries in the runtime section. -/
def runtime? (v : JsonValue) : Option (List ObjectEntry) := do
  let [objects] ← Record.read [{ name := "object", hasDefault := true }] v | none
  match objects with
  | none => some []
  | some v => entries? v

/-- The entries in a record whose one field holds a section with them, if it is there. -/
def nested? (name : String) (inner : JsonValue → Option (Option (List ObjectEntry)))
    (v : JsonValue) : Option (Option (List ObjectEntry)) := do
  let [part] ← Record.read [{ name }] v | none
  return (← Record.optional inner part).join

/-- The entries of a catalog, if it has a runtime section. -/
def root? (v : JsonValue) : Option (Option (List ObjectEntry)) :=
  nested? "servoydoc" (nested? "runtime" fun v => (runtime? v).map some) v

/-! ## Conversion -/

/-- The aliases that entries give. -/
def aliasesOf (entries : List ObjectEntry) : AliasTable :=
  ⟨entries.filterMap fun e => do pure (← e.qualifiedName, ← e.scriptingName)⟩

/-- The entry is an object that scripts can use. -/
def isExposed (e : ObjectEntry) : Bool :=
  let qualified := (e.qualifiedName.getD "").toList
  match e.scriptingName with
  | none => false
  | some name => !(qualified.head? == some 'I' || e.extendsComponent.isSome || name == "Globals" ||
      "JS".toList.isPrefixOf qualified)

/-- The type of a code; without one it is `any`. -/
def typeOf (aliases : AliasTable) (code : Option String) : TypeInfo :=
  PlatformType.decode (code.getD "any") aliases

/-- The parameter of an entry. -/
def paramOf (aliases : AliasTable) (e : ParamEntry) : Param :=
  let type := typeOf aliases e.typecode
  { name := e.name
    type := if e.optional then type.intoOptional else type
    description := e.description.getD ""
    optional := e.optional }

/-- The function of an entry. -/
def functionOf (aliases : AliasTable) (e : FunctionEntry) : Function where
  name := e.name
  params := e.params.map (paramOf aliases)
  returns := typeOf aliases e.returns
  description := e.description.getD ""
  location := none

/-- The constant or property of an entry. -/
def memberOf (aliases : AliasTable) (e : MemberEntry) : Variable where
  name := e.name
  type := typeOf aliases e.typecode
  description := e.description.getD ""
  deprecated := if e.isDeprecated then some (e.deprecated.getD "Deprecated") else none
  location := none

/-- The object of an entry. -/
def objectOf (aliases : AliasTable) (e : ObjectEntry) : ScriptObject where
  name := e.scriptingName.getD ""
  functions := e.functions.map (functionOf aliases)
  constants := e.constants.map (memberOf aliases)
  properties := e.properties.map (memberOf aliases)
  description := e.description.getD "no description"

/-- The catalog of entries. -/
def ofEntries (entries : List ObjectEntry) : Catalog :=
  let aliases := aliasesOf entries
  { objects := (entries.filter isExposed).map (objectOf aliases), aliases }

/-- The catalog that a value holds. -/
def ofJson (v : JsonValue) : Except Fault Catalog :=
  match root? v with
  | none => .error .malformed
  | some none => .error .noRuntime
  | some (some entries) => .ok (ofEntries entries)

/-- The catalog that a text holds. -/
def parse (text : String) : Except Fault Catalog :=
  match JsonValue.parse? text with
  | none => .error .malformed
  | some v => ofJson v

end Catalog

/-- The index of a catalog's objects. -/
def SymbolIndex.ofCatalog (c : Catalog) : SymbolIndex :=
  c.objects.foldl SymbolIndex.insert { aliases := c.aliases }

end ScriptAtlas
