/-
The configuration of a workspace: where its catalog and its cache are, what
its files are called, and which files belong to it. A file belongs to it if
it matches one of the include patterns, or there are none, and none of the
exclude patterns.
-/
import ScriptAtlas.Glob
import ScriptAtlas.Path

namespace ScriptAtlas

/-- A configuration. `source` is the file it was read from; `catalog` is absolute, `cacheDir` is
taken from the root of the workspace; the script extension has no dot. -/
structure Config where
  source : Option String := none
  catalog : Option String := none
  cacheDir : String := ".scriptsense.cache"
  settingsFile : String := "solution_settings.obj"
  globalsFile : String := "globals.js"
  scriptExtension : String := "js"
  included : List String := []
  excluded : List String := []
  alsoExcluded : List String := []
  allowUnknownActuals : Bool := false
  deriving DecidableEq, Repr, Inhabited

namespace Config

/-! ## Which files belong to the workspace -/

/-- Trees of dependencies and of build results, which are excluded unless the configuration says
otherwise. -/
def defaultExcludes : List String :=
  ["**/node_modules/**", "**/.git/**", "**/vendor/**", "**/dist/**", "**/build/**"]

/-- The exclude patterns in force: those of the configuration, or else the usual ones, the cache
and the additional ones. -/
def effectiveExcludes (c : Config) : List String :=
  if c.excluded.isEmpty then defaultExcludes ++ ["**/" ++ c.cacheDir ++ "/**"] ++ c.alsoExcluded
  else c.excluded

/-- The path as patterns see it: its components with slashes between them. -/
def patternForm (path : String) : String := Path.slashed (Path.components path)

/-- The path matches an include pattern, or there are none. -/
def matchesInclude (c : Config) (path : String) : Bool :=
  c.included.isEmpty || c.included.any (Glob.accepts · (patternForm path))

/-- The path matches an exclude pattern. -/
def matchesExclude (c : Config) (path : String) : Bool :=
  c.effectiveExcludes.any (Glob.accepts · (patternForm path))

/-- The file with that path, taken from the root, belongs to the workspace. -/
def shouldInclude (c : Config) (path : String) : Bool := c.matchesInclude path && !c.matchesExclude path

/-! ## Kinds of files -/

/-- The path has the extension of scripts, in any case of ASCII letters. -/
def isScript (c : Config) (path : String) : Bool :=
  match Path.extension? path with
  | some e => Text.asciiLower e.toList == Text.asciiLower c.scriptExtension.toList
  | none => false

/-- The path is that of a file with globals. -/
def isGlobalsFile (c : Config) (path : String) : Bool := Path.fileName? path == some c.globalsFile

/-- The path is that of the settings of a unit. -/
def isSettingsFile (c : Config) (path : String) : Bool := Path.fileName? path == some c.settingsFile

/-! ## Summary -/

/-- The exclude patterns on one line, only the first two of more than three. -/
def excludeText (patterns : List String) : String :=
  if patterns.length ≤ 3 then ", ".intercalate patterns
  else ", ".intercalate (patterns.take 2) ++ ", ... (+" ++ toString (patterns.length - 2) ++ " more)"

/-- The configuration for people to read. -/
def summary (c : Config) : String :=
  "\n".intercalate (
    ["   Config: " ++ c.source.getD "(defaults)", "   Catalog: " ++ c.catalog.getD "(none)"] ++
    (if c.included.isEmpty then [] else ["   Include: " ++ ", ".intercalate c.included]) ++
    ["   Exclude: " ++ excludeText c.effectiveExcludes])

end Config

end ScriptAtlas
