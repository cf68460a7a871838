/-
Functions, methods and classes, and the object literals that hold methods.
-/
import ScriptAtlas.Script.Literal

namespace ScriptAtlas.Script.Reader

/-! ## Blocks and parameters -/

/-- Statements, as many as there are, and the gap after them. After a closing brace a markup comment
is taken only where a statement may end. -/
def statementsFrom (self : Answers) :
    Nat → (html : Bool) → (found : List Pieces) → (least : Nat) → Reader Pieces
  | 0, _, found, least => fun i => ⟨least, some (found.reverse.flatten, i)⟩
  | n + 1, html, found, least => fun i =>
    match self (.statement html) i with
    | ⟨least', none⟩ =>
      let (gap, j) := gapsFrom html (i.left + 1) [] i
      ⟨min least least', some (found.reverse.flatten ++ gap, j)⟩
    | ⟨least', some (ps, j)⟩ =>
      let afterBrace := (ps.getLast?.bind Shape.lastChar?) == some '}'
      statementsFrom self n (!afterBrace || Semicolon.ends false j.left j.rest) (ps :: found)
        (min least least') j

/-- Statements, as many as there are, and the gap after them. -/
def statements (self : Answers) : Reader Pieces := fun i =>
  statementsFrom self (i.left + 1) true [] i.left i

/-- Statements in braces. -/
def block (self : Answers) : Reader Pieces := do
  return Pieces.wrap .block ((← mark "\x7b") ++ (← statements self) ++ (← mark "\x7d"))

/-- A parameter: a pattern, which may have a default value or follow three dots. -/
def parameter (self : Answers) : Reader Pieces :=
  convert Shape.toPattern (spread self <|> self (.expression {}))

/-- The parameters of a function. -/
def parameters (self : Answers) : Reader Pieces := do
  let opening ← mark "("
  let inside ← optional do
    let list ← items1 (parameter self)
    return list ++ (← optional (mark ","))
  return Pieces.wrap .parameters (opening ++ inside ++ (← mark ")"))

/-- Parameters and a body. -/
def signatureAndBody (self : Answers) : Reader Pieces := do
  let ps ← parameters self
  let body ← block self
  return Pieces.withRole .parameters ps ++ Pieces.withRole .body body

/-- A function from its first word on. The kinds are those of an ordinary function and of a
generator. -/
def functionOf (self : Answers) (plainKind generatorKind : Kind) (needsName : Bool) :
    Reader Pieces := do
  let lead ← optional (word "async")
  let fn ← word "function"
  let star ← optional (mark "*")
  let name ← if needsName || (← nextMark) != "(" then
      Pieces.withRole .name <$> anyWord .identifier
    else pure []
  let rest ← signatureAndBody self
  return Pieces.wrap (if star.isEmpty then plainKind else generatorKind)
    (lead ++ fn ++ star ++ name ++ rest)

/-- A function that stands as a value. -/
def functionValue (self : Answers) : Reader Pieces := functionOf self .function .generator false

/-- A function that stands as a statement. -/
def functionDeclaration (self : Answers) : Reader Pieces :=
  functionOf self .functionDeclaration .generatorDeclaration true

/-! ## Members -/

/-- A dotted name that goes on from `left`. -/
def dottedFrom : Nat → (left : Pieces) → Reader Pieces
  | 0, left => pure left
  | n + 1, left => do
    if (← nextMark) != "." then return left
    let dot ← mark "."
    let name ← anyWord .propertyName
    dottedFrom n
      (Pieces.wrap .member (Pieces.withRole .object left ++ dot ++ Pieces.withRole .property name))

/-- A dotted name. -/
def dotted : Reader Pieces := do
  dottedFrom (← rest).length (← anyWord .identifier)

/-- A decorator: a dotted name, which may be called. -/
def decorator (self : Answers) : Reader Pieces := do
  let at_ ← mark "@"
  let name ← dotted
  let args ← if (← nextMark) == "(" then arguments self else pure []
  let body := if args.isEmpty then name
    else Pieces.wrap .call (Pieces.withRole .callee name ++ Pieces.withRole .arguments args)
  return Pieces.wrap .decorator (at_ ++ body)

/-- The name of a member comes next, or the star of a generator. -/
def startsName : Reader Bool := fun i =>
  let (_, j) := gapsFrom false (i.left + 1) [] i
  let starts := match j.rest with
    | c :: _ => c.isDigit || ['\x22', '\x27', '[', '#', '*'].contains c ||
      (Lexis.word? j.rest).isSome || (Lexis.number? j.rest).isSome
    | [] => false
  ⟨j.left, some (starts, i)⟩

/-- A word before the name of a member. In a class the word is itself a name where a statement may
end after it. -/
def modifier (inClass : Bool) (w : String) : Reader Pieces := do
  let m ← word w
  if inClass && (← endsHere false) then fail
  guard (← startsName)
  return m

/-- The two words that start a static reader on a line of their own. -/
def staticGet : Reader Pieces := do
  let s ← word "static"
  let g ← word "get"
  guard (((← rest).takeWhile Semicolon.isSpace).contains '\n')
  return s ++ g

/-- A method from its name on, with what comes before the name. -/
def methodFrom (self : Answers) (lead name : Pieces) : Reader Pieces := do
  return Pieces.wrap .method (lead ++ Pieces.withRole .name name ++ (← signatureAndBody self))

/-- The words and the star before the name of a method. -/
def methodLead (inClass : Bool) : Reader Pieces := do
  let a ← optional (modifier inClass "async")
  let g ← optional (modifier inClass "get" <|> modifier inClass "set" <|> mark "*")
  return a ++ g

/-- A member of an object literal. -/
def property (self : Answers) : Reader Pieces := spread self <|> do
  let decorators ← many (decorator self)
  let static ← optional (modifier false "static")
  let lead ← methodLead false
  let name ← propertyName self
  let before := decorators ++ static ++ lead
  if (← nextMark) == "(" then methodFrom self before name
  else do
    guard before.isEmpty
    let colon ← optional (mark ":")
    if !colon.isEmpty then
      let value ← self (.expression {})
      return Pieces.wrap .pair (name ++ colon ++ Pieces.withRole .value value)
    let ps ← ofOption (match name.getLast? with
      | some (.leaf .propertyName r c t) => some (name.dropLast, r, c, t)
      | _ => none)
    let (gap, r, c, t) := ps
    let equals ← optional (mark "=")
    if equals.isEmpty then return gap ++ [.leaf .shorthandName r c t]
    let value ← self (.expression {})
    return Pieces.wrap .defaultedShorthand
      (gap ++ [.leaf .shorthandPattern (some .left) c t] ++ equals ++ Pieces.withRole .right value)

/-- An object literal. -/
def object (self : Answers) : Reader Pieces := do
  return Pieces.wrap .object ((← mark "\x7b") ++ (← items (property self)) ++ (← mark "\x7d"))

/-! ## Classes -/

/-- A field of a class. -/
def field (self : Answers) (lead name : Pieces) : Reader Pieces := do
  let value ← if ← endsHere false then pure []
    else optional do
      let equals ← mark "="
      let value ← self (.expression { ends := true })
      return equals ++ Pieces.withRole .value value
  let ending ← semicolon (!value.isEmpty)
  return Pieces.wrap .field (lead ++ Pieces.withRole .property name ++ value) ++ ending

/-- A block that runs when the class is made. -/
def staticBlock (self : Answers) : Reader Pieces := do
  let static ← word "static"
  guard (!(← endsHere false))
  return Pieces.wrap .staticBlock (static ++ Pieces.withRole .body (← block self))

/-- A member of a class. -/
def classMember (self : Answers) : Reader Pieces := mark ";" <|> staticBlock self <|> do
  let decorators ← many (decorator self)
  let static ← optional (staticGet <|> modifier true "static")
  let lead ← methodLead true
  let name ← propertyName self
  if (← nextMark) == "(" then
    let m ← methodFrom self (decorators ++ static ++ lead) name
    return m ++ (← optional (mark ";"))
  guard lead.isEmpty
  field self (decorators ++ static) name

/-- A class from its first word on. -/
def classOf (self : Answers) (kind : Kind) (needsName : Bool) : Reader Pieces := do
  let decorators ← many (decorator self)
  let cls ← word "class"
  let w ← nextWord
  let name ← if needsName || (w != "" && w != "extends") then
      Pieces.withRole .name <$> anyWord .identifier
    else pure []
  let heritage ← optional do
    return Pieces.wrap .heritage ((← word "extends") ++ (← self (.expression {})))
  let opening ← mark "\x7b"
  let members ← many (classMember self)
  let closing ← mark "\x7d"
  let body := Pieces.wrap .classBody (opening ++ members ++ closing)
  return Pieces.wrap kind (decorators ++ cls ++ name ++ heritage ++ Pieces.withRole .body body)

end ScriptAtlas.Script.Reader
