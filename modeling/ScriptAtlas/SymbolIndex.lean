/-
The index of the objects a script can use: those of the platform's catalog and
the project's globals. Names are unique and stay in the order in which they
were first inserted.
-/
import ScriptAtlas.Globals
import ScriptAtlas.NameSearch
import ScriptAtlas.PlatformType

namespace ScriptAtlas

/-- Named objects in the order of their first insertion, the place of each name among them, and the
aliases of platform types. -/
structure SymbolIndex where
  objects : List ScriptObject := []
  places : List (String × Nat) := []
  aliases : AliasTable := {}
  deriving Inhabited

namespace SymbolIndex

/-- The name reserved for the globals of the project. -/
def globalsName : String := "globals"

/-- Where the object of that name stands. -/
def place? (x : SymbolIndex) (name : String) : Option Nat := x.places.lookup name

/-- The index with one more object, in the place of the one with its name if there is one. -/
def insert (x : SymbolIndex) (o : ScriptObject) : SymbolIndex :=
  match x.place? o.name with
  | some i => { x with objects := x.objects.set i o }
  | none =>
    { x with
      objects := x.objects ++ [o]
      places := (o.name, x.objects.length) :: x.places }

/-- The object of that name. -/
def lookup (x : SymbolIndex) (name : String) : Option ScriptObject :=
  (x.place? name).bind (x.objects[·]?)

/-- The names of the objects. -/
def names (x : SymbolIndex) : List String := x.objects.map (·.name)

/-- The number of objects. -/
def size (x : SymbolIndex) : Nat := x.objects.length

/-- The globals of the project. -/
def globals (x : SymbolIndex) : Option ScriptObject := x.lookup globalsName

/-- The index with these functions and properties as the project's globals; whatever else is known
of them is kept. -/
def installGlobals (x : SymbolIndex) (g : Globals) : SymbolIndex :=
  let o := (x.lookup globalsName).getD { name := globalsName }
  x.insert { o with functions := g.functions, properties := g.properties }

/-- The objects whose names are found for the typed text, best first. -/
def searchObjects (x : SymbolIndex) (typed : String) : List ScriptObject :=
  (NameSearch.search x.names typed).filterMap x.lookup

end SymbolIndex

/-- The functions whose names are found for the typed text, best first; of overloads the first. -/
def ScriptObject.searchFunctions (o : ScriptObject) (typed : String) : List Function :=
  (NameSearch.search (o.functions.map (·.name)).eraseDups typed).filterMap fun name =>
    o.functions.find? (·.name == name)

end ScriptAtlas
