/-
Functions as an editor shows them: labels for parameters and signatures, a
line of detail, hover text in markdown, and a completion snippet with tab
stops.
-/
import ScriptAtlas.Declaration

namespace ScriptAtlas

/-- The name of the parameter, with a question mark when it is optional. -/
def Param.label (p : Param) : String := if p.optional then p.name ++ "?" else p.name

namespace Function

/-- The form `name(a: T, b?: U)`. -/
def label (f : Function) : String :=
  f.name ++ "(" ++ ", ".intercalate (f.params.map fun p => p.label ++ ": " ++ p.type.text) ++ ")"

/-- The form `(method) name(a: T): R`, a line for each function. -/
def detail (fs : List Function) : String :=
  "\n".intercalate (fs.map fun f => "(method) " ++ f.label ++ ": " ++ f.returns.text)

/-- The line on a parameter in the hover text. -/
def paramLine (p : Param) : String :=
  "- **" ++ p.name ++ "** (" ++ p.type.text ++ ")" ++ (if p.optional then "_(optional)_" else "") ++
    ": " ++ p.description ++ "\n"

/-- The hover text, with a rule between functions. -/
def markdown (fs : List Function) : String :=
  "\n---\n".intercalate (fs.map fun f =>
    "**" ++ f.name ++ "**\n\n_" ++ f.description ++ "_\n\n" ++ String.join (f.params.map paramLine))

/-- The tab stops of the parameters, numbered from `i`; those of optional ones are in brackets. -/
def stops : Nat → List Param → List String
  | _, [] => []
  | i, p :: ps =>
    let stop := s!"$\x7b{i}:" ++ p.name ++ "\x7d"
    (if p.optional then "[" ++ stop ++ "]" else stop) :: stops (i + 1) ps

/-- The completion snippet. -/
def snippet (f : Function) : String :=
  f.name ++ "(" ++ ",".intercalate (stops 1 f.params) ++ ")"

end Function

end ScriptAtlas
