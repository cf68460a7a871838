/-
The type of a value as this library knows it: a name, array levels, generic
arguments, and whether the value may be left out. Doc comments and platform
codes are both read into it, calls are checked against it, and it has one
display form.
-/

namespace ScriptAtlas

/-- A type. `isArray` says that there is at least one array level, `arrayDepth` how many;
`dbTableRef` is the table named by a generic argument `db:/server/table`. -/
structure TypeInfo where
  name : String
  optional : Bool := false
  isArray : Bool := false
  arrayDepth : UInt32 := 0
  genericArgs : List TypeInfo := []
  dbTableRef : Option String := none
  deriving Repr, Inhabited

namespace TypeInfo

mutual

/-- Equality of types is decided field by field. -/
def decEq : (a b : TypeInfo) → Decidable (a = b)
  | ⟨n₁, o₁, i₁, d₁, g₁, r₁⟩, ⟨n₂, o₂, i₂, d₂, g₂, r₂⟩ =>
    if h : n₁ = n₂ ∧ o₁ = o₂ ∧ i₁ = i₂ ∧ d₁ = d₂ ∧ r₁ = r₂ then
      match decEqList g₁ g₂ with
      | isTrue hg => isTrue (by obtain ⟨rfl, rfl, rfl, rfl, rfl⟩ := h; subst hg; rfl)
      | isFalse hg => isFalse (by intro e; cases e; exact hg rfl)
    else isFalse (by intro e; cases e; exact h ⟨rfl, rfl, rfl, rfl, rfl⟩)

/-- Equality of lists of types is decided member by member. -/
def decEqList : (as bs : List TypeInfo) → Decidable (as = bs)
  | [], [] => isTrue rfl
  | [], _ :: _ => isFalse (by intro e; cases e)
  | _ :: _, [] => isFalse (by intro e; cases e)
  | a :: as, b :: bs =>
    match decEq a b with
    | isFalse h => isFalse (by intro e; cases e; exact h rfl)
    | isTrue h =>
      match decEqList as bs with
      | isTrue h' => isTrue (by subst h; subst h'; rfl)
      | isFalse h' => isFalse (by intro e; cases e; exact h' rfl)

end

instance : DecidableEq TypeInfo := decEq

/-- The plain type of that name. -/
def named (name : String) : TypeInfo := { name := name }

/-- The unconstrained type: everything fits it. -/
def any : TypeInfo := named "any"

/-- The type of something that exists but could not be typed. -/
def unknown : TypeInfo := named "unknown"

/-- The type of no value. -/
def void : TypeInfo := named "void"

/-- The type of the literal `null`. -/
def null : TypeInfo := named "null"

/-- The type wrapped in `extra` more array levels. -/
def intoArray (t : TypeInfo) (extra : UInt32) : TypeInfo :=
  if extra = 0 then t else { t with arrayDepth := t.arrayDepth + extra, isArray := true }

/-- The type of a value that may be left out. -/
def intoOptional (t : TypeInfo) : TypeInfo := { t with optional := true }

/-- The type is called `any`. -/
def isAny (t : TypeInfo) : Bool := t.name == "any"

/-- The type is called `null`. -/
def isNull (t : TypeInfo) : Bool := t.name == "null"

/-- A value of type `actual` may be passed where `expected` is asked for: `any` takes everything,
otherwise the names are equal and both are arrays or neither is. -/
def assignable (actual expected : TypeInfo) : Bool :=
  expected.isAny || (actual.name == expected.name && actual.isArray == expected.isArray)

mutual

/-- The display form `name<args>`, with `[]` after an array of any depth. -/
def text : TypeInfo → String
  | ⟨name, _, isArray, _, args, _⟩ =>
    name ++ (if args.isEmpty then "" else "<" ++ ", ".intercalate (texts args) ++ ">") ++
      (if isArray then "[]" else "")

/-- The display forms of a list of types. -/
def texts : List TypeInfo → List String
  | [] => []
  | t :: ts => text t :: texts ts

end

end TypeInfo

/-- The kinds of literal whose type is known from their form. -/
inductive LiteralKind where
  | string
  | number
  | boolean
  | null
  | regex
  deriving DecidableEq, Repr

/-- The type of a literal. -/
def LiteralKind.type : LiteralKind → TypeInfo
  | .string => .named "string"
  | .number => .named "number"
  | .boolean => .named "boolean"
  | .null => .null
  | .regex => .named "RegExp"

end ScriptAtlas
