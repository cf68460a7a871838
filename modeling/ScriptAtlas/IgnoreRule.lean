/-
Ignore rules: which files and folders a walk leaves out. A folder can hold
rules in three files. A rule speaks of paths below its folder, the last rule
of a file that fits a path decides, and the file of the nearest folder that
decides wins over those above. Of the three kinds of files the first that
decides wins.
-/
import ScriptAtlas.FileTree
import ScriptAtlas.IgnoreRule.Pattern

namespace ScriptAtlas

/-- A rule: whether it keeps what it fits instead of leaving it out, whether it speaks of folders
only, and its pattern. -/
structure IgnoreRule where
  keeps : Bool
  foldersOnly : Bool
  pattern : List IgnoreRule.Piece
  deriving Repr, Inhabited

namespace IgnoreRule

open Text

/-! ## Reading rules -/

/-- The line without the blanks at its end, unless the last one is escaped. -/
def trimLine (line : List Char) : List Char :=
  if ['\\', ' '].isSuffixOf line then line else trimEnd line

/-- The start of a rule: whether it keeps, whether it is bound to the folder of its file, and what
follows. A backslash lets a rule start with a mark. -/
def readStart (s : List Char) : Bool × Bool × List Char :=
  match s with
  | '\\' :: '!' :: rest => (false, false, '!' :: rest)
  | '\\' :: '#' :: rest => (false, false, '#' :: rest)
  | _ =>
    let (keeps, s) := match s with
      | '!' :: rest => (true, rest)
      | _ => (false, s)
    match s with
    | '/' :: rest => (keeps, true, rest)
    | _ => (keeps, false, s)

/-- The end of a rule: whether it is a slash, which speaks of folders only, and what is before it. -/
def readEnd (s : List Char) : Bool × List Char :=
  match s.reverse with
  | '/' :: '\\' :: rest => (true, rest.reverse)
  | '/' :: rest => (true, rest.reverse)
  | _ => (false, s)

/-- The text of the pattern. One without a slash fits at any depth, and one for all below a folder
does not fit the folder. -/
def patternText (bound : Bool) (s : List Char) : List Char :=
  let anywhere := !bound && !s.contains '/' && s != ['*', '*']
  let s := if anywhere then ['*', '*', '/'] ++ s else s
  if ['/', '*', '*'].isSuffixOf s then s ++ ['/', '*'] else s

/-- The rule on a line, if there is one. -/
def ofLine? (line : List Char) : Option IgnoreRule := do
  if line.head? = some '#' then none
  else
    let s := trimLine line
    if s.isEmpty then none
    else
      let (keeps, bound, s) := readStart s
      let (foldersOnly, s) := readEnd s
      return ⟨keeps, foldersOnly, ← pattern? (patternText bound s)⟩

/-- The lines of a file up to one that is no text. -/
def linesOf (bytes : Bytes) : List (List Char) :=
  let lines := (bytes.splitOn 0x0A).map fun l => if l.getLast? = some 0x0D then l.dropLast else l
  let texts := lines.map fun l => (FileTree.textOf l).toOption
  (texts.takeWhile (·.isSome)).filterMap (·.map String.toList)

/-- The rules in a file. A byte order mark in front is skipped. -/
def ofFile (bytes : Bytes) : List IgnoreRule :=
  match linesOf bytes with
  | [] => []
  | first :: others => (first.dropWhile (· == '\ufeff') :: others).filterMap ofLine?

/-! ## Deciding -/

/-- The rule fits the path, which is taken from the folder of the rule. -/
def fits (r : IgnoreRule) (path : Route) (isFolder : Bool) : Bool :=
  (isFolder || !r.foldersOnly) && accepts r.pattern ("/".intercalate path).toUTF8.toList

/-- What the last rule that fits says: to keep the path, or not to. -/
def decide? (rules : List IgnoreRule) (path : Route) (isFolder : Bool) : Option Bool :=
  (rules.reverse.find? (·.fits path isFolder)).map (·.keeps)

/-- Where in a folder rules can be, the kind that wins first. -/
def ruleFiles : List Route := [[".ignore"], [".gitignore"], [".git", "info", "exclude"]]

/-- The rules of one kind in a tree, with their folders. -/
def rulesOf (t : FileTree) (name : Route) : List (Route × List IgnoreRule) :=
  t.files.filterMap fun (r, f) =>
    match f.content with
    | .plain bytes =>
      if name.isSuffixOf r then some (r.take (r.length - name.length), ofFile bytes) else none
    | .database .. => none

/-- All rules of a tree, by kind. -/
def allRules (t : FileTree) : List (List (Route × List IgnoreRule)) := ruleFiles.map (rulesOf t)

/-- What the rules of one kind say of a path: the nearest folder above it that decides. -/
def kindDecides? (rules : List (Route × List IgnoreRule)) (path : Route) (isFolder : Bool) :
    Option Bool :=
  (FileTree.above path).reverse.findSome? fun folder =>
    (rules.lookup folder).bind fun rs => decide? rs (path.drop folder.length) isFolder

/-- The rules leave the path out. -/
def leavesOut (rules : List (List (Route × List IgnoreRule))) (path : Route) (isFolder : Bool) : Bool :=
  rules.findSome? (kindDecides? · path isFolder) == some false

end IgnoreRule

end ScriptAtlas
