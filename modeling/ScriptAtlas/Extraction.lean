/-
What a script declares at its top level. A function whose body assigns to
members of `this` is a class: members that are given functions are its
methods, members that are given literals its variables. Types come from doc
comments only; the parameters written in the code and those documented are
merged by name.
-/
import ScriptAtlas.DocComment
import ScriptAtlas.Script.Source

namespace ScriptAtlas

open Script

namespace Extraction

/-! ## Parameters -/

/-- A parameter as the code has it. One with a default value, and the one that takes the rest, may
be left out. -/
structure CodeParam where
  name : String
  optional : Bool
  deriving DecidableEq, Repr, Inhabited

/-- The parameter that a node of a parameter list names. Patterns name none. -/
def codeParam? (n : Node) : Option CodeParam := do
  let (named, optional) ← match n.kind with
    | .identifier => some (n, false)
    | .assignmentPattern => (n.child? .left).map (·, true)
    | .restPattern => n.parts.head?.map (·, true)
    | _ => none
  if named.kind = .identifier then some ⟨named.text, optional⟩ else none

/-- The parameters of a function as the code has them. -/
def codeParams (function : Node) : List CodeParam :=
  match function.child? .parameter with
  | some single => [⟨single.text, false⟩]
  | none =>
    match function.child? .parameters with
    | some list => list.named.filterMap codeParam?
    | none => []

/-- The documented parameters that are not among `merged`, each name once. -/
def appendMissing : (merged documented : List Param) → List Param
  | merged, [] => merged
  | merged, d :: ds =>
    if merged.any (·.name == d.name) then appendMissing merged ds
    else appendMissing (merged ++ [d]) ds

/-- The parameters of the code, each as it is documented if it is, and then the parameters that are
only documented. -/
def mergeParams (documented : List Param) (code : List CodeParam) : List Param :=
  appendMissing
    (code.map fun c =>
      (documented.find? (·.name == c.name)).getD (Param.undocumented c.name c.optional))
    documented

/-! ## Declarations -/

/-- The doc comment attached to a node. -/
def docFor (s : Source) (n : Node) : Option DocComment :=
  ((s.commentFor n).filter Comment.isDocBlock).map (DocComment.parse ·.text)

/-- Where a node starts. -/
def locationOf (file : String) (n : Node) : Location :=
  ⟨file, n.start.line.toUInt32, n.start.column.toUInt32⟩

/-- The documented description, or the text that stands in for it. -/
def description (doc : Option DocComment) (fallback : String) : String :=
  (doc.map (·.descriptionOr fallback)).getD fallback

/-- The function that a node declares under a name. -/
def functionOf (file name : String) (doc : Option DocComment) (code : List CodeParam) (n : Node) :
    Function where
  name := name
  params := mergeParams ((doc.map (·.params)).getD []) code
  returns := (doc.map (·.returns)).getD .void
  description := description doc Placeholder.ofFunction
  location := some (locationOf file n)

/-- The variable that a node declares under a name. -/
def variableOf (file name : String) (doc : Option DocComment) (n : Node) : Variable where
  name := name
  type := (doc.bind (·.declaredType)).getD .unknown
  description := description doc Placeholder.ofVariable
  deprecated := doc.bind (·.deprecated)
  location := some (locationOf file n)

/-- A statement that assigns to a member of `this`. -/
structure SelfAssignment where
  statement : Node
  member : String
  value : Node
  deriving Repr, Inhabited

/-- The assignment to a member of `this` that a statement is. -/
def selfAssignment? (statement : Node) : Option SelfAssignment := do
  guard (statement.kind = .expressionStatement)
  let assignment ← statement.parts.head?
  guard (assignment.kind = .assignment)
  let left ← assignment.child? .left
  let value ← assignment.child? .right
  guard (left.kind = .member)
  let object ← left.child? .object
  let property ← left.child? .property
  guard (object.kind = .thisWord && property.kind = .propertyName)
  pure ⟨statement, property.text, value⟩

/-- The assignments to members of `this` that stand directly in the body of a function. -/
def selfAssignments (function : Node) : List SelfAssignment :=
  ((function.child? .body).map fun body => body.named.filterMap selfAssignment?).getD []

/-- The method that an assignment gives to a class. -/
def method? (s : Source) (file : String) (a : SelfAssignment) : Option Function :=
  if a.value.kind.isFunctionValue then
    some (functionOf file a.member (docFor s a.statement) (codeParams a.value) a.statement)
  else none

/-- The variable that an assignment gives to a class. -/
def field? (s : Source) (file : String) (a : SelfAssignment) : Option Variable :=
  if a.value.kind.literal?.isSome then
    some (variableOf file a.member (docFor s a.statement) a.statement)
  else none

/-- The class that a function with assignments to members of `this` is. -/
def classOf (s : Source) (file name : String) (n : Node) (assigned : List SelfAssignment) : Class :=
  let doc := docFor s n
  { name
    description := description doc Placeholder.ofClass
    params := mergeParams ((doc.map (·.params)).getD []) (codeParams n)
    methods := assigned.filterMap (method? s file)
    vars := assigned.filterMap (field? s file)
    base := doc.bind (·.base)
    location := some (locationOf file n) }

/-- The function or class that a function declaration is. -/
def ofFunction (s : Source) (file : String) (n : Node) : Declarations :=
  match n.child? .name with
  | none => {}
  | some name =>
    match selfAssignments n with
    | [] => { functions := [functionOf file name.text (docFor s n) (codeParams n) n] }
    | assigned => { classes := [classOf s file name.text n assigned] }

/-- The variable that a declarator declares. A pattern declares nothing with a name. -/
def ofDeclarator? (s : Source) (file : String) (n : Node) : Option Variable := do
  guard (n.kind = .declarator)
  let name ← n.child? .name
  guard (name.kind = .identifier)
  pure (variableOf file name.text (docFor s n) n)

/-- What a statement at the top level declares. -/
def ofStatement (s : Source) (file : String) (n : Node) : Declarations :=
  match n.kind with
  | .functionDeclaration | .generatorDeclaration => ofFunction s file n
  | .varDeclaration | .lexicalDeclaration =>
    { vars := n.named.filterMap (ofDeclarator? s file) }
  | _ => {}

end Extraction

namespace Declarations

/-- The declarations of both, those of the first in front. -/
def append (a b : Declarations) : Declarations where
  functions := a.functions ++ b.functions
  vars := a.vars ++ b.vars
  classes := a.classes ++ b.classes

/-- What a script declares; `file` is named in the locations. -/
def ofSource (s : Source) (file : String) : Declarations :=
  (s.root.named.map (Extraction.ofStatement s file)).foldl append {}

/-- What the script that a text is declares, if it is one. -/
def ofText? (text file : String) : Option Declarations :=
  (Source.parse? text).map (ofSource · file)

end Declarations

end ScriptAtlas
