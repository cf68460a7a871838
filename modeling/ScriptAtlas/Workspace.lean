/-
A workspace: configuration, cache, symbol index and units of one folder,
built once. Opening one needs a root that exists; all else that is missing or
broken is done without. The cache is a database below the root. When it
cannot be used, or another workspace holds it, a new one in memory is used.
-/
import ScriptAtlas.Catalog
import ScriptAtlas.ConfigFile
import ScriptAtlas.Diagnostic
import ScriptAtlas.Globals
import ScriptAtlas.Script.Fault
import ScriptAtlas.Units

namespace ScriptAtlas

/-! ## The symbol index of a workspace -/

namespace SymbolIndex

/-- The catalog of a configuration. One that is missing or broken is empty. -/
def catalogOf (t : FileTree) (c : Config) : Catalog :=
  let found := do Catalog.parse (← (t.readText (← c.catalog)).toOption) |>.toOption
  found.getD {}

/-- What each of the files with globals declares, through the cache. -/
def extractGlobals (t : FileTree) (root : String) (s : Store) (paths : List String) :
    List Declarations × Store :=
  paths.foldl (fun (found, s) path =>
    match t.extract s path (cacheKey globalsFolder root path) with
    | (some d, s) => (found ++ [d], s)
    | (none, s) => (found, s)) ([], s)

/-- The index of a workspace: the catalog and the merged globals of all files with globals. -/
def build (t : FileTree) (c : Config) (root : String) (s : Store) : SymbolIndex × Store :=
  let paths := ((Discovery.find t c root c.isGlobalsFile).toOption).getD []
  let (found, s) := extractGlobals t root s paths
  ((SymbolIndex.ofCatalog (catalogOf t c)).installGlobals (Globals.merge found), s)

end SymbolIndex

/-- A workspace. `database` is where its cache is kept, if not in memory. -/
structure Workspace where
  root : String
  config : Config
  database : Option Route
  store : Store
  index : SymbolIndex
  units : Units

namespace Workspace

/-- A workspace cannot be opened. The path is as it was given. -/
inductive OpenFault where
  | badRoot (path : String) (cause : FileFault)
  deriving DecidableEq, Repr

/-- What is said of the fault. -/
def OpenFault.message : OpenFault → String
  | badRoot path _ => "Failed to resolve workspace root " ++ path

/-- What lies under the fault. -/
def OpenFault.cause : OpenFault → String
  | badRoot _ cause => cause.message

/-- The workspace of a root, with a configuration and what its cache holds so far. -/
def build (t : FileTree) (c : Config) (root : String) (database : Option Route) (s : Store) :
    Workspace :=
  let (index, s) := SymbolIndex.build t c root s
  let (units, s) := Units.build t c root s
  { root := root, config := c, database := database, store := s, index := index, units := units }

/-! ## The database -/

/-- The name of the database in the cache folder. -/
def databaseName : String := "extraction.redb"

/-- The tree with the folder for a cache, and the database in it with its entries, if it can be
used. An empty file becomes a database, any other that is none is left alone. -/
def openDatabase (t : FileTree) (folder : String) : FileTree × Option (Route × Store) :=
  match t.makeFolders folder with
  | .error _ => (t, none)
  | .ok (t, folder) =>
    let place := folder ++ [databaseName]
    if t.isFolder place then (t, none)
    else
      match t.file? place with
      | none => (t, some (place, {}))
      | some ⟨.plain bytes, _⟩ => (t, if bytes.isEmpty then some (place, {}) else none)
      | some ⟨.database s held, _⟩ => (t, if held then none else some (place, s))

/-- The tree with the entries of a workspace in its database, which it holds from now on. -/
def commit (t : FileTree) (w : Workspace) : FileTree :=
  match w.database with
  | none => t
  | some place => t.write place ⟨.database w.store true, 0⟩

/-- The tree in which a workspace no longer holds its database. -/
def close (t : FileTree) (w : Workspace) : FileTree :=
  match w.database with
  | none => t
  | some place =>
    match t.file? place with
    | some ⟨.database s _, modified⟩ => t.write place ⟨.database s false, modified⟩
    | _ => t

/-! ## Opening -/

/-- Open the workspace with that root, which is taken from the folder `here`. -/
def openAt (t : FileTree) (here root : String) : FileTree × Except OpenFault Workspace :=
  match t.resolve (Path.join here root) with
  | .error cause => (t, .error (.badRoot root cause))
  | .ok route =>
    let root := route.text
    let c := Config.load t root
    let (t, found) := openDatabase t (Path.join root c.cacheDir)
    let w := match found with
      | some (place, s) => build t c root (some place) s
      | none => build t c root none {}
    (commit t w, .ok w)

/-- Build the workspace with that root, an absolute path, and a cache in memory. -/
def inMemory (t : FileTree) (root : String) : Workspace :=
  build t (Config.load t root) root none {}

/-! ## Checking scripts -/

/-- Under which rules calls are checked. -/
def options (w : Workspace) : ResolveOptions := { allowUnknown := w.config.allowUnknownActuals }

/-- The findings in a text, unless it does not parse. -/
def analyze (w : Workspace) (text : String) : Except Script.Fault (List Diagnostic) :=
  match Script.Source.parse text with
  | .error fault => .error fault
  | .ok _ => .ok ((Diagnostic.analyze? w.index w.options text).getD [])

/-- A script cannot be checked. -/
inductive CheckFault where
  | unreadable (path : String) (cause : FileFault)
  | malformed (path : String) (cause : Script.Fault)
  deriving DecidableEq, Repr

/-- What is said of the fault. -/
def CheckFault.message : CheckFault → String
  | unreadable path _ => "Failed to read script " ++ path
  | malformed path _ => "Failed to analyze " ++ path

/-- What lies under the fault. -/
def CheckFault.cause : CheckFault → String
  | unreadable _ cause => cause.message
  | malformed _ cause => cause.message

/-- The findings in a file, whose path is taken from the root. -/
def check (w : Workspace) (t : FileTree) (path : String) : Except CheckFault (List Diagnostic) :=
  let path := Path.join w.root path
  match t.readText path with
  | .error cause => .error (.unreadable path cause)
  | .ok text => (w.analyze text).mapError (.malformed path)

end Workspace

end ScriptAtlas
