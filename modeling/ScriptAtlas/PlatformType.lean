/-
Type codes of the platform's reference. `[` opens an array level, `L…;` wraps
a class name, single letters are primitives, and a class name is looked up
among the well-known ones and then among the catalog's own names. Decoding
never fails: an unknown code is the name of an opaque type.
-/
import ScriptAtlas.DocType.Reader

namespace ScriptAtlas

/-- Qualified names of the platform with their scripting names, in catalog order. -/
structure AliasTable where
  entries : List (String × String) := []
  deriving DecidableEq, Repr, Inhabited

namespace AliasTable

/-- The table with one more entry at its end. -/
def insert (t : AliasTable) (qualified scripting : String) : AliasTable :=
  ⟨t.entries ++ [(qualified, scripting)]⟩

/-- The number of entries. -/
def size (t : AliasTable) : Nat := t.entries.length

/-- The scripting name of the first entry whose qualified name ends the code. -/
def resolveSuffix (t : AliasTable) (code : String) : Option String :=
  (t.entries.find? fun e => e.1.toList.isSuffixOf code.toList).map (·.2)

end AliasTable

namespace PlatformType

open Text

/-- Well-known class names, with the doc expression each stands for. -/
def builtins : List (String × String) :=
  [("java.lang.String", "string"),
   ("java.lang.Integer", "number"),
   ("java.lang.Double", "number"),
   ("java.lang.Float", "number"),
   ("java.lang.Long", "number"),
   ("java.lang.Short", "number"),
   ("java.lang.Number", "number"),
   ("java.lang.Boolean", "boolean"),
   ("java.lang.Object", "any"),
   ("java.math.BigDecimal", "number"),
   ("java.util.Date", "Date"),
   ("java.sql.Date", "Date"),
   ("java.sql.Time", "Date"),
   ("java.sql.Timestamp", "Date"),
   ("java.util.List", "Array<any>"),
   ("java.util.Map", "Record<string, any>"),
   ("org.mozilla.javascript.Function", "Function"),
   ("org.mozilla.javascript.NativeArray", "Array<any>"),
   ("org.mozilla.javascript.NativeObject", "object"),
   ("int", "number"),
   ("long", "number"),
   ("short", "number"),
   ("double", "number"),
   ("float", "number"),
   ("char", "string"),
   ("boolean", "boolean"),
   ("void", "void"),
   ("any", "any")]

/-- The type name a single-letter code stands for. -/
def primitive? : List Char → Option String
  | [c] =>
    if c = 'I' ∨ c = 'D' ∨ c = 'F' ∨ c = 'J' ∨ c = 'S' then some "number"
    else if c = 'Z' then some "boolean"
    else if c = 'B' then some "byte"
    else if c = 'C' then some "string"
    else if c = 'V' then some "void"
    else none
  | _ => none

/-- The text without one semicolon at its end. -/
def dropSemicolon (s : List Char) : List Char := (dropTail? [';'] s).getD s

theorem length_dropSemicolon_le (s : List Char) : (dropSemicolon s).length ≤ s.length := by
  unfold dropSemicolon dropTail?
  split <;> simp

theorem length_trim_le (s : List Char) : (trim s).length ≤ s.length := by
  unfold trim trimEnd trimStart
  have h1 := DocType.length_dropWhile_le isBlank s
  have h2 := DocType.length_dropWhile_le isBlank (s.dropWhile isBlank).reverse
  simp only [List.length_reverse] at h2 ⊢
  omega

/-- The type of a class name. -/
def classType (code : List Char) (aliases : AliasTable) : TypeInfo :=
  let name := String.ofList code
  match builtins.find? (·.1 == name) with
  | some (_, expr) => .ofDoc expr
  | none =>
    match aliases.resolveSuffix name with
    | some scripting => .named scripting
    | none => .named name

/-- The type that stands behind the opening brackets of an array code, when it is no class. -/
def elementType (code : List Char) : TypeInfo :=
  let base := dropSemicolon code
  match primitive? base with
  | some name => .ofDoc name
  | none => .named (String.ofList base)

/-- The type a code stands for. -/
def decodeChars (aliases : AliasTable) (code : List Char) : TypeInfo :=
  match _h : trim code with
  | [] => .any
  | c :: r =>
    if c = '[' then
      let depth := (c :: r).takeWhile (· == '[')
      match _h' : (c :: r).dropWhile (· == '[') with
      | 'L' :: object => (decodeChars aliases (dropSemicolon object)).intoArray depth.length.toUInt32
      | rest => (elementType rest).intoArray depth.length.toUInt32
    else
      match _h' : dropTail? [';'] r with
      | some object =>
        if c = 'L' then decodeChars aliases object
        else classType (c :: r) aliases
      | none =>
        match primitive? (c :: r) with
        | some name => .ofDoc name
        | none => classType (c :: r) aliases
termination_by code.length
decreasing_by
  · have h1 := length_trim_le code
    have h2 := DocType.length_dropWhile_le (· == '[') (c :: r)
    have h3 := length_dropSemicolon_le object
    rw [_h'] at h2
    rw [_h] at h1
    simp only [List.length_cons] at h1 h2
    omega
  · have h1 := length_trim_le code
    rw [_h] at h1
    simp only [dropTail?, Option.ite_none_right_eq_some, Option.some.injEq] at _h'
    have h2 := congrArg List.length _h'.2
    simp only [List.length_take, List.length_cons] at h1 h2
    omega

/-- The type a code stands for. -/
def decode (code : String) (aliases : AliasTable) : TypeInfo := decodeChars aliases code.toList

end PlatformType

end ScriptAtlas
