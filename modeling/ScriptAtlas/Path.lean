/-
Paths as texts that keep their own spelling, and their components. Repeated
slashes, a slash at the end and every dot that is not the first component are
not components. Nothing here looks at a disk, so `..` is a component like any
other.
-/
import ScriptAtlas.Text.Blank

namespace ScriptAtlas.Path

open Text

/-- A component of a path. -/
inductive Component where
  | root
  | here
  | up
  | name (text : String)
  deriving DecidableEq, Repr, Inhabited

/-- The component as it is written. -/
def Component.text : Component → String
  | root => "/"
  | here => "."
  | up => ".."
  | name s => s

/-- The root slash or the dot at the start of the path, and what follows. -/
def splitLead : List Char → List Char × List Char
  | '/' :: rest => (['/'], rest)
  | ['.'] => (['.'], [])
  | '.' :: '/' :: rest => (['.'], '/' :: rest)
  | rest => ([], rest)

/-- The piece between two slashes is no component. -/
def isSilent (piece : List Char) : Bool := piece.isEmpty || piece == ['.']

/-- The component that a piece is. -/
def pieceComponent (piece : List Char) : Component :=
  if piece == ['.', '.'] then .up else .name (String.ofList piece)

/-- The component that the start of the path is. -/
def leadComponent (lead : List Char) : List Component :=
  if lead == ['/'] then [.root] else if lead == ['.'] then [.here] else []

/-- The components of a path. -/
def components (path : String) : List Component :=
  let (lead, body) := splitLead path.toList
  leadComponent lead ++ ((splitAtChar '/' body).filter (!isSilent ·)).map pieceComponent

/-- The path without its last component. The root and the empty path have no parent. -/
def parent? (path : String) : Option String :=
  let (lead, body) := splitLead path.toList
  match (splitAtChar '/' body).reverse.dropWhile isSilent with
  | _ :: rest =>
    some (String.ofList (lead ++ joinWith ['/'] (rest.dropWhile isSilent).reverse))
  | [] => if lead == ['.'] then some "" else none

/-- The last component, when it is a name. -/
def fileName? (path : String) : Option String :=
  match (components path).getLast? with
  | some (.name s) => some s
  | _ => none

/-- A file name up to its last dot and what follows the dot. A dot that starts the name divides
nothing. -/
def splitName (name : String) : String × Option String :=
  match lastIndexOf? '.' name.toList with
  | none => (name, none)
  | some i =>
    if i = 0 then (name, none)
    else (String.ofList (name.toList.take i), some (String.ofList (name.toList.drop (i + 1))))

/-- The file name without its extension. -/
def stem? (path : String) : Option String := (fileName? path).map (splitName · |>.1)

/-- The extension of the file name, without the dot. -/
def extension? (path : String) : Option String := (fileName? path).bind (splitName · |>.2)

/-- The path starts at the root. -/
def isAbsolute (path : String) : Bool := path.toList.head? == some '/'

/-- The second path, taken from the first one unless it is absolute. -/
def join (base path : String) : String :=
  if isAbsolute path then path
  else if base.isEmpty || base.toList.getLast? == some '/' then base ++ path
  else base ++ "/" ++ path

/-- The components that the path has after those of `base`, if it starts with them. -/
def under? (base path : String) : Option (List Component) :=
  let lead := components base
  let all := components path
  if lead.isPrefixOf all then some (all.drop lead.length) else none

/-- The components as one text with slashes between them. -/
def slashed (cs : List Component) : String := "/".intercalate (cs.map (·.text))

/-- The path and the paths above it, innermost first. -/
def ancestors (path : String) : List String := go path.length path
where
  /-- The path and at most `n` above it. -/
  go : Nat → String → List String
    | 0, path => [path]
    | n + 1, path => path :: (match parent? path with
      | some above => go n above
      | none => [])

end ScriptAtlas.Path
