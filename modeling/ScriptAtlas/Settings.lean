/-
The settings file of a unit: lines of the form `key: "value",`. All other
lines are ignored, and the last value of a key counts. A unit needs an
identifier under `uuid`; it is named for its directory and lists the units it
references under `modulesNames`.
-/
import ScriptAtlas.Path
import ScriptAtlas.Text.Blank

namespace ScriptAtlas

open Text

/-- The values of a settings file, one for each key. -/
structure Settings where
  entries : List (String × String) := []
  deriving DecidableEq, Repr, Inhabited

namespace Settings

/-- The value of a key. -/
def get? (s : Settings) (key : String) : Option String :=
  (s.entries.find? (·.1 == key)).map (·.2)

/-- The settings with the value of a key put in place of what it was. -/
def insert (s : Settings) (key value : String) : Settings :=
  ⟨s.entries.filter (·.1 != key) ++ [(key, value)]⟩

/-- The character may stand in a key. -/
def isKeyChar (c : Char) : Bool := c.isAlphanum || c == '_'

/-- The key and the value on a line without blanks at its ends. -/
def assignment? (line : List Char) : Option (String × String) := do
  let key := line.takeWhile isKeyChar
  if key.isEmpty then none
  let rest ← dropLead? [':'] (trimStart (line.dropWhile isKeyChar))
  let rest ← dropLead? ['\x22'] (trimStart rest)
  let value ← dropTail? ['\x22'] ((dropTail? [','] rest).getD rest)
  pure (String.ofList key, String.ofList value)

/-- The settings that a text holds. -/
def parse (content : String) : Settings :=
  (((lines content.toList).map trim).filterMap assignment?).foldl (fun s (k, v) => s.insert k v) {}

end Settings

/-- A unit of the project: a directory with a settings file. -/
structure ProjectUnit where
  path : String
  settingsPath : String
  name : String
  references : List String
  uuid : String
  deriving DecidableEq, Repr, Inhabited

/-- The unit that a settings file declares, unless its identifier is missing or empty. -/
def ProjectUnit.ofSettings? (content settingsPath : String) : Option ProjectUnit := do
  let settings := Settings.parse content
  let uuid ← settings.get? "uuid"
  if uuid.isEmpty then none
  let path := (Path.parent? settingsPath).getD ""
  let listed := ((settings.get? "modulesNames").map (splitAtChar ',' ·.toList)).getD []
  pure
    { path, settingsPath, name := (Path.fileName? path).getD "", uuid
      references := ((listed.map trim).filter (!·.isEmpty)).map String.ofList }

end ScriptAtlas
