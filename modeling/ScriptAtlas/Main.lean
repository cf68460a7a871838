/-
The program. It reads the files that a command can ask for into a tree, runs
the command line on it, writes the cache back and prints the answer.
-/
import ScriptAtlas.CommandLine

open ScriptAtlas

/-! ## Reading the disk -/

/-- The file on disk at a route. A cache is read as one. -/
def readFile (t : FileTree) (route : Route) : IO FileTree := do
  let path ← IO.FS.realPath route.text
  let info ← path.metadata
  let bytes := (← IO.FS.readBinFile path).toList
  let content := match route.getLast? == some Workspace.databaseName, Store.decode? bytes with
    | true, some s => Content.database s false
    | _, _ => .plain bytes
  return t.write route ⟨content, info.modified.sec * 1000000000 + info.modified.nsec.toNat⟩

/-- The folder on disk at a route with all that is in it. Links are not followed. -/
partial def readFolder (t : FileTree) (route : Route) : IO FileTree := do
  let mut t := t.addFolder route
  for entry in ← (← IO.FS.realPath route.text).readDir do
    let next := route ++ [entry.fileName]
    match (← entry.path.symlinkMetadata).type with
    | .dir => t ← readFolder t next
    | .file => t ← readFile t next
    | _ => pure ()
  return t

/-- What is on disk at a path, if anything is. -/
def readAt (t : FileTree) (path : String) : IO FileTree := do
  let place ← IO.FS.realPath path
  if ← place.isDir then readFolder t (Route.ofPath place.toString)
  else if ← place.pathExists then readFile t (Route.ofPath place.toString)
  else return t

/-- What is on disk at a path, or nothing if it cannot be read. -/
def tryRead (t : FileTree) (path : String) : IO FileTree :=
  try readAt t path catch _ => pure t

/-- The files in a folder that also count for the folders in it. -/
def sharedFiles : List Route := [ConfigFile.fileName] :: IgnoreRule.ruleFiles

/-- The tree that a command on the workspace with that root can see. -/
def readWorkspace (root : String) (command : CommandLine.Command) : IO FileTree := do
  let mut t ← tryRead {} root
  for folder in Path.ancestors root do
    for file in sharedFiles do
      t ← tryRead t (Path.join folder ("/".intercalate file))
  let named := match command with
    | .check files => files.map (Path.join root)
    | _ => []
  for path in named ++ (Config.load t root).catalog.toList do
    unless t.hasFile path do t ← tryRead t path
  return t

/-! ## Writing the cache -/

/-- Write the databases of a tree to disk. -/
def writeDatabases (t : FileTree) : IO Unit := do
  for (route, file) in t.files do
    if let .database s _ := file.content then
      if let some bytes := s.encode? then
        IO.FS.createDirAll (Route.text route.dropLast)
        IO.FS.writeBinFile route.text bytes.toByteArray

/-! ## Running -/

/-- The tree for a request. -/
def treeFor (here : String) : CommandLine.Request → IO FileTree
  | .run root command => readWorkspace (Path.join here root) command
  | _ => pure {}

/-- Run the command line and answer with its exit code. -/
def main (words : List String) : IO UInt32 := do
  let here := (← IO.currentDir).toString
  let before ← treeFor here (CommandLine.request words)
  let (after, answer) := CommandLine.run before here words
  try writeDatabases after catch _ => pure ()
  IO.print answer.out
  IO.eprint answer.err
  return answer.code.toUInt32
