/-
Doc comments: a free description, then tags. A tag starts on a line of its own
with an at sign and goes on over the lines after it. Reading never fails; a
malformed tag has missing pieces. The second half says what the tags mean for
the declaration below the comment.
-/
import ScriptAtlas.Declaration
import ScriptAtlas.DocType.Reader
import ScriptAtlas.Text.LowerCase

namespace ScriptAtlas

open Text

/-- One tag. `typeExpr` is the text between its braces, and `optional` says that its name was
written in square brackets. -/
structure DocTag where
  title : String
  typeExpr : Option String := none
  name : Option String := none
  optional : Bool := false
  description : String := ""
  deriving DecidableEq, Repr, Inhabited

/-- A doc comment. -/
structure DocComment where
  description : String := ""
  tags : List DocTag := []
  deriving DecidableEq, Repr, Inhabited

namespace DocTag

/-- Tags that name a parameter or property right after the type. -/
def namedTitles : List String := ["param", "arg", "argument", "property", "prop"]

/-- Tags whose first word is their type when no braces are written. -/
def typedTitles : List String := ["extends", "augments", "type"]

/-- What stands before the bracket that closes an open one, and what stands after it. -/
def splitClosing (open_ close : Char) : Nat → List Char → Option (List Char × List Char)
  | _, [] => none
  | depth, c :: cs =>
    if c = open_ then (splitClosing open_ close (depth + 1) cs).map fun (a, b) => (c :: a, b)
    else if c = close then
      if depth ≤ 1 then some ([], cs)
      else (splitClosing open_ close (depth - 1) cs).map fun (a, b) => (c :: a, b)
    else (splitClosing open_ close depth cs).map fun (a, b) => (c :: a, b)

/-- The type in braces at the start of the text, and what follows it. Braces that are never closed
hold all the rest. -/
def takeType : List Char → Option (List Char) × List Char
  | '{' :: s =>
    match splitClosing '{' '}' 1 s with
    | some (inner, after) => (some (trim inner), trimStart after)
    | none => (some (trim s), [])
  | s => (none, s)

/-- The first word of the text, unless it is empty, and what follows it. -/
def takeWord (s : List Char) : Option (List Char) × List Char :=
  let word := s.takeWhile (!isBlank ·)
  (if word.isEmpty then none else some word, trimStart (s.dropWhile (!isBlank ·)))

/-- A name at the start of the text, whether it was in square brackets, and what follows it. A
default value after an equals sign is no part of the name. -/
def takeName : List Char → Option (List Char) × Bool × List Char
  | '[' :: s =>
    let (inner, after) := (splitClosing '[' ']' 1 s).getD (s, [])
    let name := trim (inner.takeWhile (· != '='))
    (if name.isEmpty then none else some name, true, trimStart after)
  | s =>
    let (word, after) := takeWord s
    (word, false, after)

/-- The description without the dash that may lead it. -/
def describe (s : List Char) : String :=
  String.ofList (trim ((dropLead? ['-', ' '] s).getD s))

/-- The tag a text with a leading at sign holds. -/
def parse (text : List Char) : DocTag :=
  let text := text.dropWhile (· == '@')
  let endsTitle (c : Char) : Bool := isBlank c || c == '{'
  let title := String.ofList (lower (text.takeWhile (!endsTitle ·)))
  let (type, rest) := takeType (trimStart (text.dropWhile (!endsTitle ·)))
  if namedTitles.contains title then
    let (name, optional, rest) := takeName rest
    { title, typeExpr := type.map String.ofList, name := name.map String.ofList, optional,
      description := describe rest }
  else if type.isNone && typedTitles.contains title then
    let (word, rest) := takeWord rest
    { title, typeExpr := word.map String.ofList, description := describe rest }
  else { title, typeExpr := type.map String.ofList, description := describe rest }

/-- The type of the tag; one that is not written is `unknown`. -/
def type (t : DocTag) : TypeInfo :=
  match t.typeExpr with
  | some expr => if (trim expr.toList).isEmpty then .unknown else .ofDoc expr
  | none => .unknown

end DocTag

namespace DocComment

/-! ## Reading -/

/-- A line of a block comment without its gutter: blanks, one star, one space. -/
def dropGutter (l : List Char) : List Char :=
  let l := trimStart l
  let l := (dropLead? ['*'] l).getD l
  (dropLead? [' '] l).getD l

/-- A line of a line comment without its slashes and one space. -/
def dropSlashes (l : List Char) : List Char :=
  let l := (trimStart l).dropWhile (· == '/')
  (dropLead? [' '] l).getD l

/-- The lines of a comment without its delimiters. -/
def body (raw : List Char) : List (List Char) :=
  let raw := trim raw
  match dropLead? ['/', '*'] raw with
  | some block =>
    let block := block.dropWhile (· == '*')
    let block := (dropTail? ['*', '/'] block).getD block
    (lines block).map dropGutter
  | none => (lines raw).map dropSlashes

/-- The line starts a tag. -/
def startsTag (l : List Char) : Bool := l.head? == some '@'

/-- The text of each tag: its own line, and the non-empty lines up to the next tag. -/
def tagTexts : List (List Char) → List (List Char)
  | [] => []
  | l :: ls =>
    joinWith ['\n'] (l :: (ls.takeWhile (!startsTag ·)).filter (!·.isEmpty)) ::
      tagTexts (ls.dropWhile (!startsTag ·))
termination_by ls => ls.length
decreasing_by
  have := (List.dropWhile_sublist (l := ls) (p := fun l => !startsTag l)).length_le
  simp only [List.length_cons]
  omega

/-- The doc comment a raw comment holds, delimiters included. -/
def parse (raw : String) : DocComment :=
  let ls := (body raw.toList).map trim
  { description := String.ofList (trim (joinWith ['\n'] (ls.takeWhile (!startsTag ·))))
    tags := (tagTexts (ls.dropWhile (!startsTag ·))).map DocTag.parse }

/-! ## Meaning -/

/-- The first tag of that title. -/
def tag? (d : DocComment) (title : String) : Option DocTag :=
  d.tags.find? (·.title == title)

/-- The description, or `fallback` when there is none. -/
def descriptionOr (d : DocComment) (fallback : String) : String :=
  if d.description.isEmpty then fallback else d.description

/-- The type declared by a type tag. -/
def declaredType (d : DocComment) : Option TypeInfo :=
  (d.tag? "type").map (·.type)

/-- The parameter a tag documents. -/
def paramOf (t : DocTag) : Option Param :=
  if ["param", "arg", "argument"].contains t.title then
    t.name.map fun name =>
      let type := if t.optional then t.type.intoOptional else t.type
      { name, type, optional := type.optional
        description := if t.description.isEmpty then Placeholder.ofParam else t.description }
  else none

/-- The documented parameters, in the order of their tags. -/
def params (d : DocComment) : List Param := d.tags.filterMap paramOf

/-- The documented return type, `void` when there is none. -/
def returns (d : DocComment) : TypeInfo :=
  match d.tags.find? fun t => t.title == "returns" || t.title == "return" with
  | some t => t.type
  | none => .void

/-- The name of the class that the documented one extends. -/
def base (d : DocComment) : Option String := do
  let t ← d.tags.find? fun t => t.title == "extends" || t.title == "augments"
  let expr := trim (← t.typeExpr).toList
  if expr.isEmpty then none else some (TypeInfo.ofDoc (String.ofList expr)).name

/-- The note on a deprecated declaration. -/
def deprecated (d : DocComment) : Option String :=
  (d.tag? "deprecated").map fun t => if t.description.isEmpty then "Deprecated" else t.description

end DocComment

end ScriptAtlas
