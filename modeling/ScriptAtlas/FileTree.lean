/-
Files and folders as a value: what the programs of this library see of a
disk. A path is followed name by name from the root of the tree, so it leads
through folders only, and `..` leads to the folder above. Files stand in the
order of their routes, name by name.
-/
import ScriptAtlas.Cache

namespace ScriptAtlas

/-- The names that lead from the root of a tree to a file or folder. -/
abbrev Route := List String

/-- What a file holds: bytes, or the entries of a cache. A database that is held is in use by an
open workspace. -/
inductive Content where
  | plain (bytes : Bytes)
  | database (store : Store) (held : Bool)
  deriving DecidableEq, Repr

/-- A file and when it was written last, in nanoseconds since the start of 1970. -/
structure File where
  content : Content
  modified : Int
  deriving DecidableEq, Repr

/-- Files and folders. The root is a folder that is not listed. -/
structure FileTree where
  folders : List Route := []
  files : List (Route × File) := []
  deriving DecidableEq, Repr

/-- Why a path leads to nothing that can be used. -/
inductive FileFault where
  | notFound
  | notFolder
  | isFolder
  | notText
  deriving DecidableEq, Repr

/-- What is said of the fault. -/
def FileFault.message : FileFault → String
  | notFound => "No such file or directory (os error 2)"
  | notFolder => "Not a directory (os error 20)"
  | isFolder => "Is a directory (os error 21)"
  | notText => "stream did not contain valid UTF-8"

/-- The absolute path of a route. -/
def Route.text (r : Route) : String := "/" ++ "/".intercalate r

/-- The route that an absolute path spells out, whatever it leads through. -/
def Route.ofPath (path : String) : Route :=
  (Path.components path).foldl (fun r c =>
    match c with
    | .name n => r ++ [n]
    | .up => r.dropLast
    | _ => r) []

namespace FileTree

/-! ## Looking -/

/-- The route leads to a folder. -/
def isFolder (t : FileTree) (r : Route) : Bool := r.isEmpty || t.folders.contains r

/-- The file that the route leads to. -/
def file? (t : FileTree) (r : Route) : Option File := t.files.lookup r

/-- Follow one piece of a path, the text between two slashes. -/
def follow (t : FileTree) (r : Route) (piece : List Char) : Except FileFault Route :=
  if !t.isFolder r then .error .notFolder
  else if Path.isSilent piece then .ok r
  else if piece = ['.', '.'] then .ok r.dropLast
  else
    let next := r ++ [String.ofList piece]
    if t.isFolder next || (t.file? next).isSome then .ok next else .error .notFound

/-- Where an absolute path leads to. -/
def resolve (t : FileTree) (path : String) : Except FileFault Route :=
  if path.isEmpty then .error .notFound
  else (Text.splitAtChar '/' path.toList).foldlM t.follow []

/-- The file that an absolute path leads to. -/
def fileAt (t : FileTree) (path : String) : Except FileFault File := do
  match t.file? (← t.resolve path) with
  | some f => return f
  | none => throw .isFolder

/-- The path leads to a file. -/
def hasFile (t : FileTree) (path : String) : Bool := (t.fileAt path).isOk

/-- The bytes as a text. -/
def textOf (bytes : Bytes) : Except FileFault String :=
  match String.fromUTF8? bytes.toByteArray with
  | some s => .ok s
  | none => .error .notText

/-- The text of the file that an absolute path leads to. A database is no text. -/
def readText (t : FileTree) (path : String) : Except FileFault String := do
  match (← t.fileAt path).content with
  | .plain bytes => textOf bytes
  | .database .. => throw .notText

/-- What the file looks like from outside. -/
def stamp? (t : FileTree) (path : String) : Option FileStamp :=
  match t.fileAt path with
  | .ok ⟨.plain bytes, modified⟩ => some ⟨modified, bytes.length.toUInt64⟩
  | _ => none

/-! ## Changing -/

/-- The routes of the folders above a route. -/
def above (r : Route) : List Route := (List.range r.length).map r.take

/-- Make a folder and those above it. -/
def addFolder (t : FileTree) (r : Route) : FileTree :=
  { t with folders := (t.folders ++ above r ++ [r]).eraseDups.filter (!·.isEmpty) }

/-- Write a file, and make the folders above it. -/
def write (t : FileTree) (r : Route) (f : File) : FileTree :=
  { addFolder t r.dropLast with files := Ordered.put r f t.files }

/-- Remove a file, or a folder with all that is in it. -/
def remove (t : FileTree) (r : Route) : FileTree where
  folders := t.folders.filter (!r.isPrefixOf ·)
  files := t.files.filter fun (r', _) => !r.isPrefixOf r'

/-- Follow one piece of a path, making the folder if there is nothing. -/
def enter (here : FileTree × Route) (piece : List Char) : Except FileFault (FileTree × Route) :=
  let (t, r) := here
  match t.follow r piece with
  | .ok next => if t.isFolder next then .ok (t, next) else .error .notFolder
  | .error .notFound =>
    let next := r ++ [String.ofList piece]
    .ok (t.addFolder next, next)
  | .error fault => .error fault

/-- Make the folders that an absolute path leads through, and say where it leads to. -/
def makeFolders (t : FileTree) (path : String) : Except FileFault (FileTree × Route) :=
  (Text.splitAtChar '/' path.toList).foldlM enter (t, [])

end FileTree

end ScriptAtlas
