/-
Calls that fit no overload. A script is walked in source order with the scopes
around each point, so a call sees only what was declared before it. Only a
call of the form `object.method(arguments)` with plain names is checked, and
only when the index knows the object and the method.
-/
import ScriptAtlas.Extraction
import ScriptAtlas.Overload
import ScriptAtlas.ScopeStack
import ScriptAtlas.SymbolIndex
import ScriptAtlas.Text.Position

namespace ScriptAtlas

open Script

/-- How grave a finding is. -/
inductive Severity where
  | error
  | warning
  | information
  | hint
  deriving DecidableEq, Repr, Inhabited

namespace Severity

/-- The number an editor knows it by. -/
def code : Severity → Nat
  | error => 1
  | warning => 2
  | information => 3
  | hint => 4

/-- The word for it in reports. -/
def label : Severity → String
  | error => "error"
  | warning => "warning"
  | information => "info"
  | hint => "hint"

/-- The name it is stored under. -/
def name : Severity → String
  | error => "Error"
  | warning => "Warning"
  | information => "Information"
  | hint => "Hint"

end Severity

/-- A stretch of a source, in bytes and in the positions of an editor. -/
structure SourceRange where
  startByte : Nat
  stopByte : Nat
  start : Position
  stop : Position
  deriving DecidableEq, Repr, Inhabited

/-- The stretch that a node covers. -/
def SourceRange.ofNode (text : List Char) (n : Node) : SourceRange where
  startByte := n.start.byte
  stopByte := n.stop.byte
  start := (Position.at? text n.start.byte).getD {}
  stop := (Position.at? text n.stop.byte).getD {}

/-- A finding in a script. -/
structure Diagnostic where
  range : SourceRange
  severity : Severity
  message : String
  deriving DecidableEq, Repr, Inhabited

namespace Diagnostic

/-- What a walk is told: the script, the index, and how arguments are judged. -/
structure Task where
  source : Source
  index : SymbolIndex
  options : ResolveOptions

/-- What a walk knows at a point: the scopes around it, and the findings so far. -/
structure Walk where
  scopes : ScopeStack := {}
  found : List Diagnostic := []
  deriving Inhabited

namespace Walk

/-- Enter a scope. -/
def push (w : Walk) : Walk := { w with scopes := w.scopes.push }

/-- Leave a scope. -/
def pop (w : Walk) : Walk := { w with scopes := w.scopes.pop }

/-- Bind a name in the innermost scope. -/
def bind (w : Walk) (name : String) (type : TypeInfo) : Walk :=
  { w with scopes := w.scopes.bind name type }

/-- Note a finding. -/
def report (w : Walk) (d : Diagnostic) : Walk := { w with found := w.found ++ [d] }

end Walk

/-- The type of an argument: that of the literal, or of the name in scope, or `any`. -/
def actualType (scopes : ScopeStack) (n : Node) : TypeInfo :=
  match n.kind.literal? with
  | some literal => literal.type
  | none => if n.kind = .identifier then (scopes.lookup n.text).getD .any else .any

/-- The object and the method that a call names, when both are plain names. -/
def calledMethod? (call : Node) : Option (String × String) := do
  let callee ← call.child? .callee
  guard (callee.kind = .member)
  let object ← callee.child? .object
  let property ← callee.child? .property
  guard (object.kind = .identifier && property.kind = .propertyName)
  pure (object.text, property.text)

/-- The types of the arguments of a call. -/
def actuals (scopes : ScopeStack) (call : Node) : List TypeInfo :=
  ((call.child? .arguments).map fun args => args.named.map (actualType scopes)).getD []

/-- Check a call against the overloads that the index knows of its method. -/
def checkCall (t : Task) (call : Node) (w : Walk) : Walk :=
  match calledMethod? call with
  | none => w
  | some (object, method) =>
    match ((t.index.lookup object).map (·.overloads method)).getD [] with
    | [] => w
    | candidates =>
      match Overload.resolve t.options (actuals w.scopes call) candidates with
      | .ok () => w
      | .error reasons =>
        w.report
          { range := .ofNode t.source.text.toList call
            severity := .error
            message := "No matching overload found for function '" ++ object ++ "." ++ method ++
              "'.\n" ++ ";\n".intercalate (reasons.map (·.message)) }

/-- The type that a doc comment gives to what a declaration declares. -/
def declaredType (t : Task) (n : Node) : Option TypeInfo :=
  (Extraction.docFor t.source n).bind (·.declaredType)

/-- Bind the name of a declarator to the declared type or, without one, to that of its literal. -/
def bindDeclarator (declared : Option TypeInfo) (n : Node) (w : Walk) : Walk :=
  match n.child? .name with
  | none => w
  | some name =>
    if name.kind = .identifier then
      match declared.orElse fun _ =>
          ((n.child? .value).bind (·.kind.literal?)).map LiteralKind.type with
      | some type => w.bind name.text type
      | none => w
    else w

mutual

/-- Bind the names of a parameter. Those inside other patterns are not bound. -/
def bindPattern : Node → Walk → Walk
  | ⟨kind, _, _, _, text, parts⟩, w =>
    match kind with
    | .identifier => w.bind text .any
    | .restPattern => bindPatterns parts w
    | _ => w

/-- Bind the names of parameters. -/
def bindPatterns : List Node → Walk → Walk
  | [], w => w
  | n :: ns, w => bindPatterns ns (bindPattern n w)

end

mutual

/-- Walk a node. -/
def visit (t : Task) : Node → Walk → Walk
  | ⟨kind, role, start, stop, text, parts⟩, w =>
    match kind with
    | .block => (visitAll t parts w.push).pop
    | .varDeclaration | .lexicalDeclaration =>
      visitDeclarators t (declaredType t ⟨kind, role, start, stop, text, parts⟩) parts w
    | .functionDeclaration | .generatorDeclaration | .function | .generator | .arrow | .method =>
      let w := visitParameters t parts (bindSingle parts w.push)
      (visitRole t .body parts w).pop
    | .call => visitAll t parts (checkCall t ⟨kind, role, start, stop, text, parts⟩ w)
    | _ => visitAll t parts w
where
  /-- Bind the parameter of an arrow function that has no list of them. -/
  bindSingle (parts : List Node) (w : Walk) : Walk :=
    match parts.find? (·.role == some .parameter) with
    | some single => bindPattern single w
    | none => w

/-- Walk nodes one after another. -/
def visitAll (t : Task) : List Node → Walk → Walk
  | [], w => w
  | n :: ns, w => visitAll t ns (if n.kind = .comment then w else visit t n w)

/-- Walk the part that plays a role. -/
def visitRole (t : Task) (r : Role) : List Node → Walk → Walk
  | [], w => w
  | n :: ns, w => if n.role = some r then visit t n w else visitRole t r ns w

/-- Walk the declarators of a declaration: the value of each, and then its name is bound. -/
def visitDeclarators (t : Task) (declared : Option TypeInfo) : List Node → Walk → Walk
  | [], w => w
  | ⟨kind, role, start, stop, text, parts⟩ :: ns, w =>
    let w := if kind = .declarator then
        bindDeclarator declared ⟨kind, role, start, stop, text, parts⟩ (visitRole t .value parts w)
      else w
    visitDeclarators t declared ns w

/-- Walk the list of parameters of a function. -/
def visitParameters (t : Task) : List Node → Walk → Walk
  | [], w => w
  | ⟨_, role, _, _, _, parts⟩ :: ns, w =>
    if role = some .parameters then visitParameterList t parts w else visitParameters t ns w

/-- Walk parameters: the default value of each, and then its name is bound. -/
def visitParameterList (t : Task) : List Node → Walk → Walk
  | [], w => w
  | ⟨kind, role, start, stop, text, parts⟩ :: ns, w =>
    let w := match kind with
      | .comment => w
      | .assignmentPattern =>
        let w := visitRole t .right parts w
        match parts.find? (·.role == some .left) with
        | some left => bindPattern left w
        | none => w
      | _ => bindPattern ⟨kind, role, start, stop, text, parts⟩ w
    visitParameterList t ns w

end

/-- The findings in a script, in source order. -/
def ofSource (index : SymbolIndex) (options : ResolveOptions) (s : Source) : List Diagnostic :=
  (visit ⟨s, index, options⟩ s.root {}).found

/-- The findings in the script that a text is, if it is one. -/
def analyze? (index : SymbolIndex) (options : ResolveOptions) (text : String) :
    Option (List Diagnostic) :=
  (Source.parse? text).map (ofSource index options)

end Diagnostic

end ScriptAtlas
