/-
Configuration files. A file is a list of settings `key = value` in TOML, one
to a line, where a value is a text, a list of texts or a truth value. The
known keys have one kind of value each. Everything else, be it well-formed
TOML, is no configuration, and so is a key given twice.

The file for a folder is the first that is found in it and the folders above
it. If that one is no configuration, the defaults hold.
-/
import ScriptAtlas.Config
import ScriptAtlas.FileTree

namespace ScriptAtlas.ConfigFile

open Text

/-- The value of a setting. -/
inductive Value where
  | text (s : String)
  | texts (ss : List String)
  | flag (b : Bool)
  deriving DecidableEq, Repr

/-! ## Characters -/

/-- The character may stand in a comment, and for itself in a text. -/
def isPrintable (c : Char) : Bool := c == '\t' || (0x20 ≤ c.toNat && c.toNat ≠ 0x7F)

/-- The character is a blank inside a line. -/
def isSpace (c : Char) : Bool := c == ' ' || c == '\t'

/-- The character may stand in a key without quotes. -/
def isKeyChar (c : Char) : Bool := c.isAlphanum || c == '_' || c == '-'

/-- The value of a hexadecimal digit. -/
def hexDigit? (c : Char) : Option Nat :=
  if '0' ≤ c ∧ c ≤ '9' then some (c.toNat - 48)
  else if 'a' ≤ c ∧ c ≤ 'f' then some (c.toNat - 87)
  else if 'A' ≤ c ∧ c ≤ 'F' then some (c.toNat - 55)
  else none

/-- The character whose number the digits are. -/
def numbered? (digits : List Char) : Option Char := do
  let n ← digits.foldlM (fun n d => (hexDigit? d).map (16 * n + ·)) 0
  if n.isValidChar then some (Char.ofNat n) else none

/-- The character that a backslash and a character stand for. -/
def escaped? : Char → Option Char
  | 'b' => some '\x08'
  | 't' => some '\t'
  | 'n' => some '\n'
  | 'f' => some '\x0c'
  | 'r' => some '\r'
  | '\x22' => some '\x22'
  | '\\' => some '\\'
  | _ => none

/-! ## Texts -/

/-- Put a character, if there is one, before what has been read. -/
def prepend (c : Option Char) (read : Option (List Char × List Char)) :
    Option (List Char × List Char) := do
  let c ← c
  let (s, rest) ← read
  return (c :: s, rest)

/-- The rest of a text in double quotes on one line. -/
def quoted : List Char → Option (List Char × List Char)
  | [] => none
  | '\x22' :: rest => some ([], rest)
  | '\\' :: 'u' :: a :: b :: c :: d :: rest => prepend (numbered? [a, b, c, d]) (quoted rest)
  | '\\' :: 'U' :: a :: b :: c :: d :: e :: f :: g :: h :: rest =>
    prepend (numbered? [a, b, c, d, e, f, g, h]) (quoted rest)
  | '\\' :: c :: rest => prepend (escaped? c) (quoted rest)
  | c :: rest => if isPrintable c && c != '\\' then prepend (some c) (quoted rest) else none

/-- The rest of a text in single quotes on one line, which has no escapes. -/
def verbatim : List Char → Option (List Char × List Char)
  | [] => none
  | '\x27' :: rest => some ([], rest)
  | c :: rest => if isPrintable c then prepend (some c) (verbatim rest) else none

/-- Where in a long text the reader is: at a character that counts, between a backslash and the end
of its line, or at the blanks that such a backslash swallows. -/
inductive LongState where
  | plain
  | lineEnd
  | swallow
  deriving DecidableEq, Repr

/-- The rest of a text in three double quotes. It may hold line ends, and up to two quotes also
right before the closing ones. -/
def longQuoted : LongState → List Char → Option (List Char × List Char)
  | _, [] => none
  | .lineEnd, '\n' :: rest => longQuoted .swallow rest
  | .lineEnd, '\r' :: '\n' :: rest => longQuoted .swallow rest
  | .lineEnd, c :: rest => if isSpace c then longQuoted .lineEnd rest else none
  | .swallow, '\n' :: rest => longQuoted .swallow rest
  | .swallow, '\r' :: '\n' :: rest => longQuoted .swallow rest
  | .swallow, ' ' :: rest => longQuoted .swallow rest
  | .swallow, '\t' :: rest => longQuoted .swallow rest
  | _, '\x22' :: '\x22' :: '\x22' :: '\x22' :: '\x22' :: rest => some (['\x22', '\x22'], rest)
  | _, '\x22' :: '\x22' :: '\x22' :: '\x22' :: rest => some (['\x22'], rest)
  | _, '\x22' :: '\x22' :: '\x22' :: rest => some ([], rest)
  | _, '\r' :: '\n' :: rest => prepend (some '\n') (longQuoted .plain rest)
  | _, '\n' :: rest => prepend (some '\n') (longQuoted .plain rest)
  | _, '\\' :: 'u' :: a :: b :: c :: d :: rest =>
    prepend (numbered? [a, b, c, d]) (longQuoted .plain rest)
  | _, '\\' :: 'U' :: a :: b :: c :: d :: e :: f :: g :: h :: rest =>
    prepend (numbered? [a, b, c, d, e, f, g, h]) (longQuoted .plain rest)
  | _, '\\' :: '\r' :: '\n' :: rest => longQuoted .swallow rest
  | _, '\\' :: c :: rest =>
    if c = '\n' then longQuoted .swallow rest
    else if isSpace c then longQuoted .lineEnd rest
    else prepend (escaped? c) (longQuoted .plain rest)
  | _, c :: rest =>
    if isPrintable c && c != '\\' then prepend (some c) (longQuoted .plain rest) else none

/-- The rest of a text in three single quotes. -/
def longVerbatim : List Char → Option (List Char × List Char)
  | [] => none
  | '\x27' :: '\x27' :: '\x27' :: '\x27' :: '\x27' :: rest => some (['\x27', '\x27'], rest)
  | '\x27' :: '\x27' :: '\x27' :: '\x27' :: rest => some (['\x27'], rest)
  | '\x27' :: '\x27' :: '\x27' :: rest => some ([], rest)
  | '\r' :: '\n' :: rest => prepend (some '\n') (longVerbatim rest)
  | c :: rest =>
    if isPrintable c || c == '\n' then prepend (some c) (longVerbatim rest) else none

/-- A line end right after the opening quotes of a long text is not part of it. -/
def dropLineEnd : List Char → List Char
  | '\n' :: rest => rest
  | '\r' :: '\n' :: rest => rest
  | s => s

/-- A text in any of the four kinds of quotes. -/
def readText (s : List Char) : Option (String × List Char) :=
  let read := match s with
    | '\x22' :: '\x22' :: '\x22' :: rest => longQuoted .plain (dropLineEnd rest)
    | '\x22' :: rest => quoted rest
    | '\x27' :: '\x27' :: '\x27' :: rest => longVerbatim (dropLineEnd rest)
    | '\x27' :: rest => verbatim rest
    | _ => none
  read.map fun (s, rest) => (String.ofList s, rest)

/-! ## Values -/

/-- What follows blanks, line ends and comments. -/
def skipGap : (inComment : Bool) → List Char → Option (List Char)
  | _, [] => some []
  | _, '\n' :: rest => skipGap false rest
  | _, '\r' :: '\n' :: rest => skipGap false rest
  | true, c :: rest => if isPrintable c then skipGap true rest else none
  | false, c :: rest =>
    if isSpace c then skipGap false rest
    else if c = '#' then skipGap true rest
    else some (c :: rest)

/-- The rest of a list of at most so many texts. A comma may follow the last. -/
def readTexts : Nat → List Char → Option (List String × List Char)
  | 0, _ => none
  | n + 1, s => do
    match ← skipGap false s with
    | ']' :: rest => return ([], rest)
    | s =>
      let (t, s) ← readText s
      match ← skipGap false s with
      | ',' :: rest =>
        let (ts, rest) ← readTexts n rest
        return (t :: ts, rest)
      | ']' :: rest => return ([t], rest)
      | _ => none

/-- A value. -/
def readValue (s : List Char) : Option (Value × List Char) :=
  match s with
  | '[' :: rest => (readTexts (rest.length + 1) rest).map fun (ts, rest) => (.texts ts, rest)
  | 't' :: 'r' :: 'u' :: 'e' :: rest => some (.flag true, rest)
  | 'f' :: 'a' :: 'l' :: 's' :: 'e' :: rest => some (.flag false, rest)
  | _ => (readText s).map fun (t, rest) => (.text t, rest)

/-- A key: letters, digits, lines and dashes, or a text in one pair of quotes. -/
def readKey (s : List Char) : Option (String × List Char) :=
  match s with
  | '\x22' :: rest => (quoted rest).map fun (k, rest) => (String.ofList k, rest)
  | '\x27' :: rest => (verbatim rest).map fun (k, rest) => (String.ofList k, rest)
  | _ =>
    match s.takeWhile isKeyChar with
    | [] => none
    | k => some (String.ofList k, s.dropWhile isKeyChar)

/-- The line ends here, but for blanks and a comment. -/
def endsLine (s : List Char) : Bool :=
  match s.dropWhile isSpace with
  | [] => true
  | '\n' :: _ => true
  | '\r' :: '\n' :: _ => true
  | '#' :: _ => true
  | _ => false

/-- One setting with its key. -/
def readSetting (s : List Char) : Option ((String × Value) × List Char) := do
  let (key, s) ← readKey s
  match s.dropWhile isSpace with
  | '=' :: s =>
    let (value, s) ← readValue (s.dropWhile isSpace)
    if endsLine s then return ((key, value), s) else none
  | _ => none

/-- At most so many settings. -/
def readSettings : Nat → List Char → Option (List (String × Value))
  | 0, _ => none
  | n + 1, s => do
    match ← skipGap false s with
    | [] => return []
    | s =>
      let (setting, s) ← readSetting s
      return setting :: (← readSettings n s)

/-! ## Configurations -/

/-- The configuration with one setting. A catalog is taken from `base`, and dots before the script
extension are dropped. -/
def adjust? (base : String) (c : Config) : String × Value → Option Config
  | ("catalog", .text s) => some { c with catalog := some (Path.join base s) }
  | ("cache-dir", .text s) => some { c with cacheDir := s }
  | ("settings-file", .text s) => some { c with settingsFile := s }
  | ("globals-file", .text s) => some { c with globalsFile := s }
  | ("script-extension", .text s) =>
    some { c with scriptExtension := String.ofList (s.toList.dropWhile (· == '.')) }
  | ("include", .texts ss) => some { c with included := ss }
  | ("exclude", .texts ss) => some { c with excluded := ss }
  | ("extend-exclude", .texts ss) => some { c with alsoExcluded := ss }
  | ("allow-unknown-actuals", .flag b) => some { c with allowUnknownActuals := b }
  | _ => none

/-- The configuration in a file with that path and text. -/
def parse? (path text : String) : Option Config := do
  let s := match text.toList with
    | '\ufeff' :: rest => rest
    | s => s
  let settings ← readSettings (s.length + 1) s
  if (settings.map (·.1)).eraseDups.length = settings.length then
    settings.foldlM (adjust? ((Path.parent? path).getD "")) { source := some path }
  else none

/-- The name of a configuration file. -/
def fileName : String := "scriptsense.toml"

end ScriptAtlas.ConfigFile

namespace ScriptAtlas

/-- The configuration for a folder. -/
def Config.load (t : FileTree) (folder : String) : Config :=
  let candidates := (Path.ancestors folder).map (Path.join · ConfigFile.fileName)
  match candidates.find? t.hasFile with
  | none => {}
  | some path => ((t.readText path).toOption.bind (ConfigFile.parse? path)).getD {}

end ScriptAtlas
