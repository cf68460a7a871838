/-
The command line. Its words are read into a request before anything is done.
Options stand before the command, each at most once, and a word that starts
with a dash is an option unless two dashes stand before it. A request is
answered from a workspace with two texts and an exit code.
-/
import ScriptAtlas.Signature
import ScriptAtlas.Workspace

namespace ScriptAtlas.CommandLine

/-- What can be asked of a workspace. -/
inductive Command where
  | check (files : List String)
  | lookup (name : String) (member : Option String)
  | scopes (path : String)
  | cache
  deriving DecidableEq, Repr

/-- What the words of a command line ask for. -/
inductive Request where
  | run (root : String) (command : Command)
  | version
  | help
  | misuse
  deriving DecidableEq, Repr

/-! ## Reading the words -/

/-- The words that name a command. -/
inductive CommandWord where
  | check
  | lookup
  | scopes
  | cache
  | help
  deriving DecidableEq, Repr

/-- The command that a word names. -/
def commandWord? : String → Option CommandWord
  | "check" => some .check
  | "lookup" => some .lookup
  | "scopes" => some .scopes
  | "cache" => some .cache
  | "help" => some .help
  | _ => none

/-- The word is an option: it starts with a dash and is not a dash alone. -/
def isOption (word : String) : Bool := word.startsWith "-" && word != "-"

/-- What stands after a command: its words, or a call for help, or an option it does not have. -/
def operands (afterDashes : Bool) : List String → Except Request (List String)
  | [] => .ok []
  | w :: ws =>
    if afterDashes || !isOption w then (operands afterDashes ws).map (w :: ·)
    else if w = "--" then operands true ws
    else if w = "-h" ∨ w = "--help" then .error .help
    else .error .misuse

/-- The command with what stands after it. A path is not empty. -/
def command? (word : CommandWord) (words : List String) : Option Command :=
  match word, words with
  | .check, f :: fs => if (f :: fs).all (!·.isEmpty) then some (.check (f :: fs)) else none
  | .lookup, [name] => some (.lookup name none)
  | .lookup, [name, member] => some (.lookup name (some member))
  | .scopes, [path] => if path.isEmpty then none else some (.scopes path)
  | .cache, [] => some .cache
  | _, _ => none

/-- The options read so far. -/
structure Options where
  root : Option String := none
  verbose : Bool := false
  deriving DecidableEq, Repr, Inhabited

namespace Options

/-- The options with a root, which is given once and not empty. -/
def withRoot? (o : Options) (root : String) : Option Options :=
  if o.root.isNone && !root.isEmpty then some { o with root := some root } else none

/-- The options with the wish for more words, which is given once. -/
def withVerbose? (o : Options) : Option Options :=
  if o.verbose then none else some { o with verbose := true }

end Options

/-- What a word of options comes to: more options, options that need the next word for the root, or
a request that ends the reading. -/
inductive OptionReading where
  | options (o : Options)
  | rootNext (o : Options)
  | request (r : Request)
  deriving DecidableEq, Repr

/-- The reading of options that may be wrong. -/
def OptionReading.ofOptions? : Option Options → OptionReading
  | some o => .options o
  | none => .request .misuse

/-- An option by its long name. -/
def longOption (o : Options) (name : List Char) : OptionReading :=
  match Text.dropLead? "root=".toList name with
  | some value => .ofOptions? (o.withRoot? (String.ofList value))
  | none =>
    match String.ofList name with
    | "root" => .rootNext o
    | "verbose" => .ofOptions? o.withVerbose?
    | "version" => .request .version
    | "help" => .request .help
    | _ => .request .misuse

/-- Options by their letters, one after another. The rest of the word after the letter of the root
is its value. -/
def shortOptions (o : Options) : List Char → OptionReading
  | [] => .options o
  | 'v' :: rest =>
    match o.withVerbose? with
    | some o => shortOptions o rest
    | none => .request .misuse
  | ['r'] => .rootNext o
  | 'r' :: '=' :: value => .ofOptions? (o.withRoot? (String.ofList value))
  | 'r' :: value => .ofOptions? (o.withRoot? (String.ofList value))
  | 'V' :: _ => .request .version
  | 'h' :: _ => .request .help
  | _ => .request .misuse

/-- The options that a word is. -/
def optionWord (o : Options) (word : String) : OptionReading :=
  match word.toList with
  | '-' :: '-' :: name => longOption o name
  | '-' :: letters => shortOptions o letters
  | _ => .request .misuse

/-- The request of a command with what stands after it. -/
def commandRequest (o : Options) (word : CommandWord) (words : List String) : Request :=
  if word = .help then .help
  else
    match operands false words with
    | .error r => r
    | .ok words =>
      match command? word words with
      | some c => .run (o.root.getD ".") c
      | none => .misuse

/-- The request of the words, after the options that have been read. -/
def requestFrom (o : Options) : List String → Request
  | [] => .misuse
  | [w] => next w []
  | w :: value :: ws =>
    match isOption w, optionWord o w with
    | true, .rootNext o =>
      if isOption value then .misuse
      else match o.withRoot? value with
        | some o => requestFrom o ws
        | none => .misuse
    | true, .options o => requestFrom o (value :: ws)
    | _, _ => next w (value :: ws)
where
  /-- The request of a word that needs no value. -/
  next (w : String) (ws : List String) : Request :=
    if isOption w then
      match optionWord o w with
      | .request r => r
      | _ => .misuse
    else
      match commandWord? w with
      | some c => commandRequest o c ws
      | none => .misuse

/-- The request of a command line. -/
def request (words : List String) : Request := requestFrom {} words

/-! ## Answering -/

/-- What a command leaves: the exit code, and the texts for the two outputs. -/
structure Output where
  code : UInt8 := 0
  out : String := ""
  err : String := ""
  deriving DecidableEq, Repr, Inhabited

/-- A line of text. -/
def line (s : String) : String := s ++ "\n"

/-- Lines after the first are indented. -/
def indented (s : String) : String :=
  String.ofList (s.toList.flatMap fun c => if c = '\n' then "\n    ".toList else [c])

/-- The report on a finding, with its place counted from 1. -/
def findingText (file : String) (d : Diagnostic) : String :=
  line (file ++ ":" ++ toString (d.range.start.line.toNat + 1) ++ ":" ++
    toString (d.range.start.character.toNat + 1) ++ ": " ++ d.severity.label ++ ": " ++
    indented d.message)

/-- The reports on one file: what goes to each output. -/
def checkFile (w : Workspace) (t : FileTree) (file : String) : String × String :=
  match w.check t file with
  | .ok ds => (String.join (ds.map (findingText file)), "")
  | .error fault => ("", line (file ++ ": " ++ fault.message ++ ": " ++ fault.cause))

/-- The reports on files. The code is 1 when there is anything to report. -/
def check (w : Workspace) (t : FileTree) (files : List String) : Output :=
  let reports := files.map (checkFile w t)
  let out := String.join (reports.map (·.1))
  let err := String.join (reports.map (·.2))
  { code := if out.isEmpty && err.isEmpty then 0 else 1, out := out, err := err }

/-- The answer that something is not there, with names that are similar. -/
def notThere (message : String) (similar : List String) : Output :=
  let hint := if similar.isEmpty then "" else line ("did you mean: " ++ ", ".intercalate similar)
  { code := 1, err := line message ++ hint }

/-- A line on a member that is no function. -/
def memberLine (kind : String) (v : Variable) : String :=
  line ("(" ++ kind ++ ") " ++ v.name ++ ": " ++ v.type.text)

/-- The members of an object. -/
def objectText (o : ScriptObject) : String :=
  line (o.name ++ "\n\n" ++ o.description ++ "\n") ++
    String.join (o.functions.map fun f => line (Function.detail [f])) ++
    String.join (o.constants.map (memberLine "constant")) ++
    String.join (o.properties.map (memberLine "property"))

/-- The answer on the functions of that name of an object. -/
def lookupMember (o : ScriptObject) (member : String) : Output :=
  match o.overloads member with
  | [] =>
    notThere ("'" ++ o.name ++ "' has no function '" ++ member ++ "'")
      ((o.searchFunctions member).map (·.name))
  | fs => { out := line (Function.detail fs ++ "\n") ++ line (Function.markdown fs) }

/-- The answer on an object, or on its functions of one name. -/
def lookup (w : Workspace) (name : String) (member : Option String) : Output :=
  match w.index.lookup name, member with
  | none, _ =>
    notThere ("no object named '" ++ name ++ "'") ((w.index.searchObjects name).map (·.name))
  | some o, some member => lookupMember o member
  | some o, none => { out := objectText o }

/-- The answer on the unit that owns a path: what it sees, what it reaches, and its modules. -/
def scopes (w : Workspace) (path : String) : Output :=
  match w.units.owner? path with
  | none => { code := 1, err := line (path ++ " belongs to no unit") }
  | some u =>
    let modules := (w.units.visibleModules u.name).map fun m =>
      line ("  " ++ m.name ++ " [" ++ m.unit ++ "]")
    { out := line ("unit: " ++ u.name ++ " (" ++ u.path ++ ")") ++
        line ("sees: " ++ ", ".intercalate (w.units.graph.direct u.name)) ++
        line ("reaches: " ++ ", ".intercalate (w.units.graph.closure u.name)) ++
        String.join modules }

/-- The answer on the configuration and the cache. -/
def cache (w : Workspace) : Output :=
  { out := line w.config.summary ++ line ("entries: " ++ toString w.store.stats.entries) ++
      line ("size:    " ++ w.store.stats.sizeText) }

/-- The answer to a command. -/
def answer (w : Workspace) (t : FileTree) : Command → Output
  | .check files => check w t files
  | .lookup name member => lookup w name member
  | .scopes path => scopes w path
  | .cache => cache w

/-- How the program is called. -/
def usage : String :=
  "Usage: scriptsense [OPTIONS] <COMMAND>\n\n" ++
  "Commands:\n" ++
  "  check   Report call sites that match no overload\n" ++
  "  lookup  Show an indexed object, or one of its functions\n" ++
  "  scopes  Show the unit owning a path and what it can see\n" ++
  "  cache   Show extraction cache statistics\n" ++
  "  help    Print this message\n\n" ++
  "Options:\n" ++
  "  -r, --root <ROOT>  Workspace root directory [default: .]\n" ++
  "  -v, --verbose      Verbose logging\n" ++
  "  -h, --help         Print help\n" ++
  "  -V, --version      Print version\n"

/-- Run the command line in the folder `here`. The workspace is closed at the end. -/
def run (t : FileTree) (here : String) (words : List String) : FileTree × Output :=
  match request words with
  | .version => (t, { out := line "scriptsense 0.1.0" })
  | .help => (t, { out := usage })
  | .misuse => (t, { code := 2, err := usage })
  | .run root command =>
    match Workspace.openAt t here root with
    | (t, .error fault) =>
      let err := line ("Error: " ++ fault.message) ++ line ("\nCaused by:\n    " ++ fault.cause)
      (t, { code := 1, err := err })
    | (t, .ok w) => (Workspace.close t w, answer w t command)

end ScriptAtlas.CommandLine
