/-
The kinds of syntax nodes of a script, and the roles a node can play in the
node around it. Kinds follow what the analyses tell apart: a parameter name is
not a property name, a pattern is not the literal it looks like, and a
function that stands as a statement is not one that stands as a value.
-/
import ScriptAtlas.TypeInfo

namespace ScriptAtlas.Script

/-- The kind of a syntax node. -/
inductive Kind where
  -- Around the code.
  | program | shebang | comment | htmlComment
  -- Names.
  | identifier | undefinedWord | propertyName | privateName | shorthandName | labelName
  | computedName
  -- Words and literals.
  | thisWord | superWord | trueWord | falseWord | nullWord | importWord
  | number | string | stringPart | escape | template | substitution
  | regex | regexPattern | regexFlags
  -- Expressions.
  | array | object | pair | spread | parenthesized | sequence
  | function | generator | arrow | parameters | method
  | classExpression | heritage | classBody | field | staticBlock | decorator
  | member | subscript | call | arguments | construct | metaProperty | optionalChain
  | unary | update | binary | ternary | assignment | compoundAssignment | await | yield
  -- Patterns.
  | arrayPattern | objectPattern | pairPattern | restPattern | assignmentPattern
  | shorthandPattern | defaultedShorthand
  -- Markup inside scripts.
  | element | tag | attribute | embedded | markupText | entity
  -- Statements.
  | varDeclaration | lexicalDeclaration | declarator
  | functionDeclaration | generatorDeclaration | classDeclaration
  | block | expressionStatement | emptyStatement | labelled
  | ifStatement | elseClause | switchStatement | switchBody | switchCase | switchDefault
  | forStatement | forInStatement | whileStatement | doStatement | withStatement
  | tryStatement | catchClause | finallyClause
  | breakStatement | continueStatement | debuggerStatement | returnStatement | throwStatement
  | importStatement | exportStatement | moduleClause | moduleSpecifier
  deriving DecidableEq, Repr, Inhabited

/-- The part a node plays in the node around it. -/
inductive Role where
  | name | value | parameter | parameters | body | left | right | object | property | callee
  | arguments
  deriving DecidableEq, Repr, Inhabited

namespace Kind

/-- The literal that a node of this kind is. -/
def literal? : Kind → Option LiteralKind
  | string | template => some .string
  | number => some .number
  | trueWord | falseWord => some .boolean
  | nullWord => some .null
  | regex => some .regex
  | _ => none

/-- Nodes of this kind are functions that stand as values. -/
def isFunctionValue : Kind → Bool
  | function | generator | arrow => true
  | _ => false

/-- Nodes of this kind can be assigned to. -/
def isTarget : Kind → Bool
  | identifier | undefinedWord | member | subscript | arrayPattern | objectPattern => true
  | _ => false

end Kind

end ScriptAtlas.Script
