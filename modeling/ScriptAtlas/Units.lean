/-
The units of a workspace: every folder with a settings file that has an
identity is a unit, called by the name of the folder. Its files are the
scripts below its folder. What they declare is extracted once, through the
cache, and a file that fails to be extracted takes no other with it.
-/
import ScriptAtlas.Discovery
import ScriptAtlas.Extraction
import ScriptAtlas.Settings
import ScriptAtlas.UnitGraph

namespace ScriptAtlas

/-- What the file at a path declares, from the cache or read now. -/
def FileTree.extract (t : FileTree) (s : Store) (path key : String) : Option Declarations × Store :=
  s.getOrExtract key (t.stamp? path) fun _ => do
    Declarations.ofText? (← (t.readText path).toOption) path

/-- The key in a folder of the cache of a file in a workspace: its path from the root, or all of
its path if it is not below the root. -/
def cacheKey (folder root path : String) : String :=
  folder ++ "/" ++ Path.slashed ((Path.under? root path).getD (Path.components path))

/-- A script that can be seen from a unit, by its name without the extension, and the unit it
belongs to. -/
structure ModuleRef where
  name : String
  unit : String
  deriving DecidableEq, Repr, Inhabited

/-- The units of a workspace, the references between them, the scripts of each, and what the
scripts declare, by path. -/
structure Units where
  root : String := ""
  units : List ProjectUnit := []
  graph : UnitGraph := {}
  files : List (String × List String) := []
  declarations : List (String × Declarations) := []
  deriving DecidableEq, Repr, Inhabited

namespace Units

/-! ## Building -/

/-- The unit of a settings file. -/
def unitAt? (t : FileTree) (path : String) : Option ProjectUnit := do
  ProjectUnit.ofSettings? (← (t.readText path).toOption) path

/-- The units without those whose name another one has had before. -/
def distinct (units : List ProjectUnit) : List ProjectUnit :=
  units.foldl (fun kept u => if kept.any (·.name == u.name) then kept else kept ++ [u]) []

/-- The units of the settings files below a root. -/
def find (t : FileTree) (c : Config) (root : String) : List ProjectUnit :=
  let settings := ((Discovery.find t c root c.isSettingsFile).toOption).getD []
  distinct (settings.filterMap (unitAt? t))

/-- The scripts below the folder of a unit. Files with globals are not among them. -/
def scriptsOf (t : FileTree) (c : Config) (u : ProjectUnit) : List String :=
  let wanted path := c.isScript path && !c.isGlobalsFile path
  ((Discovery.find t c u.path wanted).toOption).getD []

/-- What each of the files declares, through the cache. -/
def extractAll (t : FileTree) (root : String) (s : Store) (paths : List String) :
    List (String × Declarations) × Store :=
  paths.foldl (fun (found, s) path =>
    match t.extract s path (cacheKey unitsFolder root path) with
    | (some d, s) => (found ++ [(path, d)], s)
    | (none, s) => (found, s)) ([], s)

/-- The units below a root, and the cache with what they declare. -/
def build (t : FileTree) (c : Config) (root : String) (s : Store) : Units × Store :=
  let units := find t c root
  let files := units.map fun u => (u.name, scriptsOf t c u)
  let (declarations, s) := extractAll t root s (files.flatMap (·.2)).eraseDups
  let graph := UnitGraph.ofUnits (units.map fun u => (u.name, u.references))
  ({ root := root, units := units, graph := graph, files := files, declarations := declarations }, s)

/-! ## Asking -/

/-- The unit of that name. -/
def byName? (us : Units) (name : String) : Option ProjectUnit := us.units.find? (·.name == name)

/-- Folders of dependencies, whose files belong to no unit. -/
def dependencyFolders : List String := ["node_modules", "vendor"]

/-- The absolute path is in the folder of the unit, and not in a folder of dependencies there. -/
def owns (u : ProjectUnit) (path : String) : Bool :=
  match Path.under? u.path path with
  | none => false
  | some rest => !rest.any fun c => dependencyFolders.any fun d => c == .name d

/-- The number of folders on the path of a unit. -/
def depth (u : ProjectUnit) : Nat := (Path.components u.path).length

/-- The later of two units unless the earlier one is deeper. -/
def deeper (best : Option ProjectUnit) (u : ProjectUnit) : Option ProjectUnit :=
  match best with
  | none => some u
  | some b => if depth u < depth b then some b else some u

/-- The innermost unit that owns a path, which is taken from the root. -/
def owner? (us : Units) (path : String) : Option ProjectUnit :=
  (us.units.filter (owns · (Path.join us.root path))).foldl deeper none

/-- The scripts of a unit. -/
def filesOf (us : Units) (unit : String) : List String := (us.files.lookup unit).getD []

/-- The scripts of the units that a unit sees. -/
def visibleModules (us : Units) (unit : String) : List ModuleRef :=
  (us.graph.direct unit).flatMap fun origin =>
    ((us.filesOf origin).filterMap Path.stem?).map fun name => ⟨name, origin⟩

/-- What a script declares. The path is compared component by component. -/
def declarations? (us : Units) (path : String) : Option Declarations :=
  (us.declarations.find? fun (p, _) => Path.components p == Path.components path).map (·.2)

end Units

end ScriptAtlas
