/-
Expressions. Operators of all ranks are read into one node from left to right,
since nothing in this library depends on how they bind. A line break ends an
expression only where its context says so, and it is asked for before every
operator.
-/
import ScriptAtlas.Script.Markup

namespace ScriptAtlas.Script.Reader

/-! ## Operators -/

/-- Marks between two operands. -/
def binaryMarks : List String :=
  ["&&", "||", "??", ">>", ">>>", "<<", "&", "^", "|", "+", "-", "*", "/", "%", "**", "<", "<=",
    "==", "===", "!=", "!==", ">=", ">"]

/-- Marks that assign the result of an operation. -/
def compoundMarks : List String :=
  ["+=", "-=", "*=", "/=", "%=", "^=", "&=", "|=", ">>=", ">>>=", "<<=", "**=", "&&=", "||=", "??="]

/-- The expression ends here because its statement does. -/
def isOver (context : Context) : Reader Bool :=
  if context.ends then endsHere true else pure false

/-- An operator between two operands. -/
def binaryOperator (context : Context) : Reader Pieces :=
  token (markIn binaryMarks) plain <|> word "instanceof" <|>
    if context.noIn then fail else word "in"

/-- An operator and its right operand, as often as they come. -/
def operations (self : Answers) (context : Context) : Reader Pieces := many do
  guard (!(← isOver context))
  return (← binaryOperator context) ++ (← self (.operand context))

/-- An expression without a comma. -/
def expression (self : Answers) (context : Context) : Reader Pieces := do
  let first ← self (.operand context)
  let more ← operations self context
  let whole := if more.isEmpty then first else Pieces.wrap .binary (first ++ more)
  if (← isOver context) || (← nextMark) != "?" then return whole
  let question ← mark "?"
  let yes ← self (.expression {})
  let colon ← mark ":"
  let no ← self (.expression context)
  return Pieces.wrap .ternary (whole ++ question ++ yes ++ colon ++ no)

/-! ## Calls and members -/

/-- The name of a member. -/
def memberName : Reader Pieces := anyWord .propertyName <|> privateName

/-- A call of what stands on the left. -/
def callOf (left chain args : Pieces) : Pieces :=
  Pieces.wrap .call (Pieces.withRole .callee left ++ chain ++ Pieces.withRole .arguments args)

/-- An index in brackets. -/
def index (self : Answers) : Reader Pieces := do
  return (← mark "[") ++ (← expressions self {}) ++ (← mark "]")

/-- The members, calls and steps that follow `left`; without `calls` only members and templates. -/
def chainFrom (self : Answers) (context : Context) (calls : Bool) : Nat → Pieces → Reader Pieces
  | 0, left => pure left
  | n + 1, left => do
    if ← isOver context then return left
    match ← nextMark with
    | "." =>
      let dot ← mark "."
      let name ← memberName
      chainFrom self context calls n
        (Pieces.wrap .member (Pieces.withRole .object left ++ dot ++ Pieces.withRole .property name))
    | "?." =>
      let dot ← token (markIn ["?."]) (named .optionalChain)
      match ← nextMark with
      | "(" => chainFrom self context calls n (callOf left dot (← arguments self))
      | "[" =>
        chainFrom self context calls n
          (Pieces.wrap .subscript (Pieces.withRole .object left ++ dot ++ (← index self)))
      | _ =>
        let name ← memberName
        chainFrom self context calls n
          (Pieces.wrap .member (Pieces.withRole .object left ++ dot ++ Pieces.withRole .property name))
    | "[" =>
      chainFrom self context calls n
        (Pieces.wrap .subscript (Pieces.withRole .object left ++ (← index self)))
    | "\x60" => chainFrom self context calls n (callOf left [] (← template self))
    | "(" =>
      if calls then chainFrom self context calls n (callOf left [] (← arguments self))
      else return left
    | "++" =>
      if calls then chainFrom self context calls n (Pieces.wrap .update (left ++ (← mark "++")))
      else return left
    | "--" =>
      if calls then chainFrom self context calls n (Pieces.wrap .update (left ++ (← mark "--")))
      else return left
    | _ => return left

/-- The chain of members and calls after `left`. -/
def chain (self : Answers) (context : Context) (left : Pieces) : Reader Pieces := fun i =>
  chainFrom self context true i.left left i

/-! ## Arrow functions and parentheses -/

/-- A brace comes next that may open an object literal: a name and a colon or comma follow, or
three dots, or a bracket. -/
def startsObject : Reader Bool := finds do
  let _ ← mark "\x7b"
  if ["...", "["].contains (← nextMark) then return
  let _ ← anyWord .propertyName <|> string <|> number
  guard ([":", ","].contains (← nextMark))

/-- An arrow and a body after parameters. A brace starts a block if it can. -/
def arrowFrom (self : Answers) (context : Context) (params : Pieces) : Reader Pieces := do
  let arrow ← mark "=>"
  let value := self (.expression context)
  let body ← if (← nextMark) != "\x7b" then value
    else block self <|> do guard (← startsObject); value
  return Pieces.wrap .arrow (params ++ arrow ++ Pieces.withRole .body body)

/-- Pieces in parentheses: the parameters of an arrow function, or expressions. -/
def parentheses (self : Answers) (context : Context) : Reader Pieces := do
  let opening ← mark "("
  let inside ← optional (items1 (spread self <|> self (.expression {})))
  let trailing ← if inside.isEmpty then pure [] else optional (mark ",")
  let closing ← mark ")"
  if (← nextMark) == "=>" then
    let params ← ofOption (Shape.toPatterns inside)
    let list := Pieces.wrap .parameters (opening ++ params ++ trailing ++ closing)
    return ← arrowFrom self context (Pieces.withRole .parameters list)
  guard (!inside.isEmpty && trailing.isEmpty && !inside.any (·.kind? == some .spread))
  let isComma (s : Shape) : Bool := match s with
    | .mark [','] => true
    | _ => false
  let body := if inside.any isComma then Pieces.wrap .sequence inside else inside
  return Pieces.wrap .parenthesized (opening ++ body ++ closing)

/-- A name, or the arrow function whose only parameter it is. -/
def nameOrArrow (self : Answers) (context : Context) (lead name : Pieces) : Reader Pieces := do
  if (← nextMark) == "=>" then arrowFrom self context (lead ++ Pieces.withRole .parameter name)
  else return name

/-- What starts with the word `async`: a function, an arrow function, a call, or a name. -/
def asyncOperand (self : Answers) (context : Context) : Reader Pieces := do
  if (← finds do let w ← word "async"; guard (!(← isOver context)); return w ++ (← word "function"))
  then return ← functionValue self
  let name ← anyWord .identifier
  if ← isOver context then return name
  match ← nextMark with
  | "(" =>
    let args ← arguments self
    if (← nextMark) != "=>" then return callOf name [] args
    let params ← ofOption (args.getLast?.bind fun
      | .node _ _ ps => Shape.toPatterns ps
      | _ => none)
    let list := args.dropLast ++ [.node .parameters (some .parameters) params]
    arrowFrom self context (word' name ++ list)
  | "=>" => nameOrArrow self context [] name
  | _ =>
    (do
      let parameter ← anyWord .identifier
      guard ((← nextMark) == "=>")
      nameOrArrow self context (word' name) parameter) <|> pure name
where
  /-- The word as a mark in front of a function. -/
  word' (name : Pieces) : Pieces := name.map fun
    | .leaf .identifier _ c t => .mark (c :: t)
    | s => s

/-! ## Operands -/

/-- An operator in front of its operand. -/
def prefixed (self : Answers) (context : Context) (kind : Kind) (operator : Reader Pieces) :
    Reader Pieces := do
  return Pieces.wrap kind ((← operator) ++ (← self (.operand context)))

/-- The value that a generator hands out, which may be left out. -/
def yielded (self : Answers) (context : Context) : Reader Pieces := do
  let y ← word "yield"
  if ← isOver context then return Pieces.wrap .yield y
  if (← nextMark) == "*" then
    return Pieces.wrap .yield (y ++ (← mark "*") ++ (← self (.expression context)))
  let value ← if ["in", "instanceof", "of"].contains (← nextWord) then pure []
    else optional (self (.expression context))
  return Pieces.wrap .yield (y ++ value)

/-- A new object, or the name of what is being constructed. -/
def construction (self : Answers) (context : Context) : Reader Pieces := do
  let new ← word "new"
  if (← nextMark) == "." then
    return Pieces.wrap .metaProperty (new ++ (← mark ".") ++ (← word "target"))
  let made ← self (.constructed context)
  let args ← if !(← isOver context) && (← nextMark) == "(" then arguments self else pure []
  return Pieces.wrap .construct (new ++ made ++ args)

/-- The word `import` as something to call or to take a member of. -/
def importValue : Reader Pieces := do
  let facts : Reader Pieces := do
    return Pieces.wrap .metaProperty ((← word "import") ++ (← mark ".") ++ (← word "meta"))
  facts <|> do
    let word ← wordAs "import" .importWord
    guard (["(", ".", "?."].contains (← nextMark))
    return word

/-- An operand that starts with a word. -/
def wordOperand (self : Answers) (context : Context) : Reader Pieces := do
  match ← nextWord with
  | "function" => functionValue self
  | "async" => asyncOperand self context
  | "class" => classOf self .classExpression false
  | "new" => construction self context
  | "import" => importValue
  | "this" => wordAs "this" .thisWord
  | "super" => wordAs "super" .superWord
  | "true" => wordAs "true" .trueWord
  | "false" => wordAs "false" .falseWord
  | "null" => wordAs "null" .nullWord
  | "undefined" => wordAs "undefined" .undefinedWord
  | "" => fail
  | _ => nameOrArrow self context [] (← anyWord .identifier)

/-- An operand without the operators and members around it. -/
def primary (self : Answers) (context : Context) : Reader Pieces := do
  match ← nextMark with
  | "(" => parentheses self context
  | "[" => array self
  | "\x7b" => object self
  | "\x60" => template self
  | "\x22" | "\x27" => string
  | "/" | "/=" => regex
  | "<" => self .element
  | "@" => classOf self .classExpression false
  | "#" =>
    let name ← privateName
    guard ((← nextWord) == "in")
    return name
  | _ => number <|> wordOperand self context

/-- What a new object is made from. -/
def constructed (self : Answers) (context : Context) : Reader Pieces := do
  let first ← primary self context
  let n := (← rest).length
  chainFrom self context false n first

/-- An assignment to `left`, if an equals sign follows. -/
def assignmentFrom (self : Answers) (context : Context) (left : Pieces) : Reader Pieces := do
  if ← isOver context then return left
  let m ← nextMark
  if m == "=" then
    match left.getLast?.bind fun s =>
        if s.kind? == some .parenthesized then some s else s.toTarget with
    | some target =>
      let equals ← mark "="
      let right ← self (.expression context)
      return Pieces.wrap .assignment (Pieces.withRole .left (left.dropLast ++ [target]) ++ equals ++
        Pieces.withRole .right right)
    | none => return left
  let changes : List (Option Kind) :=
    [some .member, some .subscript, some .identifier, some .parenthesized]
  if compoundMarks.contains m && changes.contains (Pieces.kind? left) then
    let operator ← mark m
    let right ← self (.expression context)
    return Pieces.wrap .compoundAssignment (Pieces.withRole .left left ++ operator ++
      Pieces.withRole .right right)
  return left

/-- An operand with what is in front of it and after it. -/
def operand (self : Answers) (context : Context) : Reader Pieces := do
  let lead ← gaps true
  let m ← nextMark
  let w ← nextWord
  let body ←
    if ["!", "~", "-", "+"].contains m then prefixed self context .unary (mark m)
    else if ["++", "--"].contains m then prefixed self context .update (mark m)
    else if ["typeof", "void", "delete"].contains w then prefixed self context .unary (word w)
    else if w == "await" then prefixed self context .await (word w)
    else if w == "yield" then yielded self context
    else do
      let first ← primary self context
      let whole ← chain self context first
      assignmentFrom self context whole
  return lead ++ body

end ScriptAtlas.Script.Reader
