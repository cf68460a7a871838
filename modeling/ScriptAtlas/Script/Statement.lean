/-
Statements and declarations. A word that starts a kind of statement is never a
name at the start of one, while everywhere else any word may be a name.
-/
import ScriptAtlas.Script.Expression

namespace ScriptAtlas.Script.Reader

/-! ## Declarations -/

/-- A name or a pattern that a declaration binds. -/
def binding (self : Answers) : Reader Pieces := do
  match ← nextMark with
  | "[" => convert Shape.toTarget (array self)
  | "\x7b" => convert Shape.toTarget (object self)
  | _ => anyWord .identifier

/-- The value that a declared name starts with, if it is given. -/
def initialValue (self : Answers) (noIn : Bool) : Reader Pieces := do
  if ← endsHere false then return []
  optional do
    let equals ← mark "="
    let value ← self (.expression { ends := true, noIn })
    return equals ++ Pieces.withRole .value value

/-- A declared name or pattern with its value. -/
def declarator (self : Answers) : Reader Pieces := do
  let name ← binding self
  return Pieces.wrap .declarator (Pieces.withRole .name name ++ (← initialValue self false))

/-- The last declarator has a value. -/
def endsInValue (ps : Pieces) : Bool :=
  match ps.getLast? with
  | some (.node _ _ parts) => parts.any (·.role? == some .value)
  | _ => false

/-- A declaration from its first word on. -/
def declarationOf (self : Answers) (kind : Kind) (w : String) : Reader Pieces := do
  let lead ← word w
  let list ← items1 (declarator self)
  return Pieces.wrap kind (lead ++ list ++ (← semicolon (endsInValue list)))

/-- A declared name or pattern comes next, after the word `let`. -/
def startsBinding : Reader Bool := do
  if ["[", "\x7b"].contains (← nextMark) then return true
  return !(["", "in", "instanceof"].contains (← nextWord))

/-- A declaration of variables. The word `let` alone is a name. -/
def declarators (self : Answers) : Reader Pieces := do
  match ← nextWord with
  | "var" => declarationOf self .varDeclaration "var"
  | "const" => declarationOf self .lexicalDeclaration "const"
  | "let" =>
    guard (← finds do
      let _ ← word "let"
      guard (!(← endsHere true))
      guard (← startsBinding))
    declarationOf self .lexicalDeclaration "let"
  | _ => fail

/-- What comes next is a class or a function with a name, or a declaration of variables. -/
def startsDeclaration : Reader Bool := finds do
  match ← nextWord with
  | "class" =>
    let _ ← word "class"
    guard (!(["", "extends"].contains (← nextWord)))
  | "function" =>
    let _ ← word "function"
    let _ ← optional (mark "*")
    guard ((← nextWord) != "")
  | "async" =>
    let _ ← word "async"
    guard (!(← endsHere true))
    let _ ← word "function"
    let _ ← optional (mark "*")
    guard ((← nextWord) != "")
  | "let" =>
    let _ ← word "let"
    guard (!(← endsHere true))
    guard (← startsBinding)
  | w => guard (w == "var" || w == "const")

/-- A declaration of any kind. -/
def declaration (self : Answers) : Reader Pieces := do
  if (← nextMark) == "@" then return ← classOf self .classDeclaration true
  guard (← startsDeclaration)
  match ← nextWord with
  | "class" => classOf self .classDeclaration true
  | "function" | "async" => functionDeclaration self
  | _ => declarators self

/-! ## Simple statements -/

/-- Expressions that stand as a statement. -/
def expressionStatement (self : Answers) : Reader Pieces := do
  return Pieces.wrap .expressionStatement
    ((← expressions self { ends := true }) ++ (← semicolon true))

/-- A jump, which may name a label. -/
def jump (kind : Kind) (w : String) : Reader Pieces := do
  let lead ← word w
  let label ← if ← endsHere false then pure [] else optional (anyWord .labelName)
  return Pieces.wrap kind (lead ++ label ++ (← semicolon false))

/-- A return, which may have a value. -/
def returnStatement (self : Answers) : Reader Pieces := do
  let lead ← word "return"
  let value ← if ← endsHere false then pure [] else optional (expressions self { ends := true })
  return Pieces.wrap .returnStatement (lead ++ value ++ (← semicolon (!value.isEmpty)))

/-- A statement with a label. -/
def labelled (self : Answers) : Reader Pieces := do
  return Pieces.wrap .labelled
    ((← anyWord .labelName) ++ (← mark ":") ++ (← self (.statement true)))

/-! ## Branches and loops -/

/-- What follows when that word comes next, or nothing. -/
def clause (w : String) (body : Reader Pieces) : Reader Pieces := do
  if (← nextWord) == w then body else return []

/-- A choice between two statements, of which the second may be missing. -/
def ifStatement (self : Answers) : Reader Pieces := do
  let lead ← word "if"
  let condition ← parenthesized self
  let yes ← self (.statement true)
  let no ← clause "else" do
    return Pieces.wrap .elseClause ((← word "else") ++ (← self (.statement true)))
  return Pieces.wrap .ifStatement (lead ++ condition ++ yes ++ no)

/-- A branch of a switch, whose statements go on to the next branch. -/
def switchBranch (self : Answers) : Reader Pieces := do
  let body : Reader Pieces := many do
    guard (!(["case", "default"].contains (← nextWord)))
    self (.statement true)
  match ← nextWord with
  | "case" =>
    return Pieces.wrap .switchCase
      ((← word "case") ++ (← expressions self {}) ++ (← mark ":") ++ (← body))
  | _ => return Pieces.wrap .switchDefault ((← word "default") ++ (← mark ":") ++ (← body))

/-- A switch. -/
def switchStatement (self : Answers) : Reader Pieces := do
  let lead ← word "switch"
  let value ← parenthesized self
  let opening ← mark "\x7b"
  let branches ← many (switchBranch self)
  let body := Pieces.wrap .switchBody (opening ++ branches ++ (← mark "\x7d"))
  return Pieces.wrap .switchStatement (lead ++ value ++ body)

/-- What a loop over a collection binds in each round. -/
def loopTarget (self : Answers) : Reader Pieces :=
  (do
    let lead ← word "var"
    let name ← binding self
    let ended ← endsHere false
    let value ← initialValue self true
    guard (!ended)
    return lead ++ name ++ value) <|>
  (do
    let lead ← word "let" <|> word "const"
    return lead ++ (← binding self)) <|>
  convert (fun s => if s.kind? == some .parenthesized then some s else s.toTarget)
    (do chain self {} (← primary self {}))

/-- A loop over a collection. -/
def forInStatement (self : Answers) : Reader Pieces := do
  let lead ← word "for"
  let wait ← optional (word "await")
  let opening ← mark "("
  let target ← loopTarget self
  let operator ← word "in" <|> word "of"
  let subject ← expressions self {}
  let closing ← mark ")"
  let body ← self (.statement true)
  return Pieces.wrap .forInStatement
    (lead ++ wait ++ opening ++ target ++ operator ++ subject ++ closing ++ Pieces.withRole .body body)

/-- An empty statement. -/
def emptyStatement : Reader Pieces := do
  return Pieces.wrap .emptyStatement (← mark ";")

/-- A loop with a start, a condition and a step. -/
def forStatement (self : Answers) : Reader Pieces := do
  let ended : Reader Pieces := do return (← expressions self {}) ++ (← mark ";")
  let lead ← word "for"
  let opening ← mark "("
  let start ← declarators self <|> ended <|> emptyStatement
  let condition ← ended <|> emptyStatement
  let step ← optional (expressions self {})
  let closing ← mark ")"
  let body ← self (.statement true)
  return Pieces.wrap .forStatement
    (lead ++ opening ++ start ++ condition ++ step ++ closing ++ Pieces.withRole .body body)

/-- A statement under a condition in parentheses. -/
def conditioned (self : Answers) (kind : Kind) (w : String) : Reader Pieces := do
  return Pieces.wrap kind ((← word w) ++ (← parenthesized self) ++ (← self (.statement true)))

/-- A loop whose condition stands at its end. -/
def doStatement (self : Answers) : Reader Pieces := do
  let lead ← word "do"
  let body ← self (.statement true)
  let loop ← word "while"
  let condition ← parenthesized self
  return Pieces.wrap .doStatement
    (lead ++ body ++ loop ++ condition ++ (← optional (semicolon false)))

/-- A block with what is done when it fails and when it is left. -/
def tryStatement (self : Answers) : Reader Pieces := do
  let lead ← word "try"
  let body ← block self
  let handler ← clause "catch" do
    let lead ← word "catch"
    let caught ← if (← nextMark) == "(" then
        pure ((← mark "(") ++ (← binding self) ++ (← mark ")"))
      else pure []
    return Pieces.wrap .catchClause (lead ++ caught ++ Pieces.withRole .body (← block self))
  let last ← clause "finally" do
    return Pieces.wrap .finallyClause
      ((← word "finally") ++ Pieces.withRole .body (← block self))
  return Pieces.wrap .tryStatement (lead ++ Pieces.withRole .body body ++ handler ++ last)

/-! ## Imports and exports -/

/-- A name in a list of imports or exports. -/
def moduleName : Reader Pieces := anyWord .identifier <|> string

/-- A name in a list of imports or exports, which may be given another one. -/
def moduleSpecifier : Reader Pieces := do
  let name ← moduleName
  let other ← optional do return (← word "as") ++ (← moduleName)
  return Pieces.wrap .moduleSpecifier (name ++ other)

/-- Names in braces. -/
def moduleNames : Reader Pieces := do
  let opening ← mark "\x7b"
  let inside ← optional do
    return (← items1 moduleSpecifier) ++ (← optional (mark ","))
  return Pieces.wrap .moduleClause (opening ++ inside ++ (← mark "\x7d"))

/-- Everything, under one name. -/
def moduleSpace : Reader Pieces := do
  return Pieces.wrap .moduleClause ((← mark "*") ++ (← word "as") ++ (← moduleName))

/-- Where names come from. -/
def moduleSource : Reader Pieces := do return (← word "from") ++ (← string)

/-- What a script takes from another one. -/
def importStatement (self : Answers) : Reader Pieces := do
  let lead ← word "import"
  let clause : Reader Pieces := moduleSpace <|> moduleNames <|> do
    let name ← anyWord .identifier
    let more ← optional do return (← mark ",") ++ (← moduleSpace <|> moduleNames)
    return name ++ more
  let what ← string <|> do return (← clause) ++ (← moduleSource)
  let facts ← optional do return (← word "with") ++ (← object self)
  return Pieces.wrap .importStatement (lead ++ what ++ facts ++ (← semicolon false))

/-- What a script offers to others. -/
def exportStatement (self : Answers) : Reader Pieces := do
  let decorators ← many (decorator self)
  let lead ← word "export"
  guard (!(← endsHere true))
  let listed : Reader Pieces := do
    let names ← (do return (← moduleSpace) ++ (← moduleSource)) <|>
      (do return (← mark "*") ++ (← moduleSource)) <|>
      (do return (← moduleNames) ++ (← optional moduleSource))
    return names ++ (← semicolon false)
  let main : Reader Pieces := do
    let w ← word "default"
    let value ← declaration self <|> do
      return (← self (.expression { ends := true })) ++ (← semicolon true)
    return w ++ value
  return Pieces.wrap .exportStatement (decorators ++ lead ++ (← listed <|> main <|> declaration self))

/-! ## All of them -/

/-- Words that are no labels at the start of a statement. -/
def leadingWords : List String :=
  ["var", "const", "function", "class", "if", "switch", "for", "while", "do", "try", "with", "break",
    "continue", "debugger", "return", "throw", "import", "new", "this", "super", "true", "false",
    "null", "undefined", "typeof", "void", "delete", "await", "yield"]

/-- Statements in braces or, where that fails, an object literal as an expression. -/
def braced (self : Answers) : Reader Pieces := block self <|> do
  guard (← startsObject)
  expressionStatement self

/-- A statement that starts with a word. -/
def wordStatement (self : Answers) (w : String) : Reader Pieces :=
  match w with
  | "if" => ifStatement self
  | "switch" => switchStatement self
  | "for" => forInStatement self <|> forStatement self
  | "while" => conditioned self .whileStatement "while"
  | "with" => conditioned self .withStatement "with"
  | "do" => doStatement self
  | "try" => tryStatement self
  | "break" => jump .breakStatement "break"
  | "continue" => jump .continueStatement "continue"
  | "debugger" => do
    return Pieces.wrap .debuggerStatement ((← word "debugger") ++ (← semicolon false))
  | "return" => returnStatement self
  | "throw" => do
    return Pieces.wrap .throwStatement
      ((← word "throw") ++ (← expressions self { ends := true }) ++ (← semicolon true))
  | "var" | "const" => declaration self
  | "import" => importStatement self <|> expressionStatement self
  | "export" => exportStatement self <|> labelled self <|> expressionStatement self
  | _ => do
    if !leadingWords.contains w && (← finds do return (← anyWord .labelName) ++ (← mark ":")) then
      labelled self
    else if ← startsDeclaration then declaration self
    else expressionStatement self

/-- A statement. -/
def statement (self : Answers) (html : Bool) : Reader Pieces := do
  let lead ← gaps html
  let body ← match ← nextMark with
    | "\x7b" => braced self
    | ";" => emptyStatement
    | "@" => declaration self <|> exportStatement self <|> expressionStatement self
    | _ => do
      match ← nextWord with
      | "" => expressionStatement self
      | w => wordStatement self w
  return lead ++ body

end ScriptAtlas.Script.Reader
