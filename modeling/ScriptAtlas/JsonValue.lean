/-
JSON texts as values. Reading is about form only: a repeated key is kept, a
number is kept as whether a double can hold it, and a string whose escapes are
no characters is kept as such a one. Whoever uses a value decides which of
these it can do with.
-/

namespace ScriptAtlas

/-- A JSON value. -/
inductive JsonValue where
  | null
  | bool (value : Bool)
  /-- `finite` says that the number is in the range of a double. -/
  | number (finite : Bool)
  /-- The text is missing when an escape in it stands for no character. -/
  | string (text : Option String)
  | array (items : List JsonValue)
  | object (members : List (Option String × JsonValue))
  deriving Repr, Inhabited

namespace JsonValue

/-! ## Numbers -/

/-- The character is blank in JSON. -/
def isBlank (c : Char) : Bool := c == ' ' || c == '\n' || c == '\t' || c == '\x0d'

/-- The decimal number that digits are. -/
def natOf (digits : List Char) : Nat :=
  digits.foldl (fun n c => 10 * n + (c.toNat - '0'.toNat)) 0

/-- The least number that is rounded to infinity: halfway past the largest double. -/
def overflow : Nat := Nat.pow 2 1024 - Nat.pow 2 970

/-- The number `mantissa * 10 ^ exponent` is in the range of a double. -/
def isFinite (mantissa : Nat) (exponent : Int) : Bool :=
  let digits : Int := (toString mantissa).length
  if mantissa = 0 || digits + exponent < 300 then true
  else if digits + exponent > 320 then false
  else if exponent ≥ 0 then mantissa * Nat.pow 10 exponent.toNat < overflow
  else mantissa < overflow * Nat.pow 10 (-exponent).toNat

/-- The digits of a fraction, if a point follows; there is at least one. -/
def fraction (s : List Char) : Option (List Char × List Char) :=
  match s with
  | '.' :: rest =>
    match rest.takeWhile Char.isDigit with
    | [] => none
    | ds => some (ds, rest.dropWhile Char.isDigit)
  | _ => some ([], s)

/-- The exponent, if there is one. -/
def exponent (s : List Char) : Option (Int × List Char) :=
  match s with
  | e :: rest =>
    if e == 'e' || e == 'E' then
      let (negative, rest) := match rest with
        | '-' :: r => (true, r)
        | '+' :: r => (false, r)
        | r => (false, r)
      match rest.takeWhile Char.isDigit with
      | [] => none
      | ds =>
        let n : Int := natOf ds
        some (if negative then -n else n, rest.dropWhile Char.isDigit)
    else some (0, s)
  | [] => some (0, [])

/-- A number. -/
def readNumber (s : List Char) : Option (JsonValue × List Char) := do
  let s := match s with
    | '-' :: rest => rest
    | _ => s
  let (whole, s) ← match s with
    | '0' :: rest => some (['0'], rest)
    | _ =>
      match s.takeWhile Char.isDigit with
      | [] => none
      | ds => some (ds, s.dropWhile Char.isDigit)
  if whole = ['0'] && (s.head?.map Char.isDigit).getD false then none
  let (part, s) ← fraction s
  let (exp, s) ← exponent s
  pure (.number (isFinite (natOf (whole ++ part)) (exp - part.length)), s)

/-! ## Strings -/

/-- The value of a hexadecimal digit. -/
def hexValue? (c : Char) : Option Nat :=
  if c.isDigit then some (c.toNat - '0'.toNat)
  else if 'a' ≤ c && c ≤ 'f' then some (c.toNat - 'a'.toNat + 10)
  else if 'A' ≤ c && c ≤ 'F' then some (c.toNat - 'A'.toNat + 10)
  else none

/-- The number that four hexadecimal digits are. -/
def unit? : List Char → Option (Nat × List Char)
  | a :: b :: c :: d :: rest => do
    let a ← hexValue? a
    let b ← hexValue? b
    let c ← hexValue? c
    let d ← hexValue? d
    pure (((a * 16 + b) * 16 + c) * 16 + d, rest)
  | _ => none

/-- The character that an escaped unit stands for, together with a second unit if it needs one.
The character is missing when there is none. -/
def escapedChar (unit : Nat) (s : List Char) : Option Char × List Char :=
  if 0xD800 ≤ unit && unit < 0xDC00 then
    match s with
    | '\\' :: 'u' :: rest =>
      match unit? rest with
      | some (low, rest) =>
        if 0xDC00 ≤ low && low < 0xE000 then
          (some (Char.ofNat (0x10000 + (unit - 0xD800) * 0x400 + (low - 0xDC00))), rest)
        else (none, s)
      | none => (none, s)
    | _ => (none, s)
  else if 0xDC00 ≤ unit && unit < 0xE000 then (none, s)
  else (some (Char.ofNat unit), s)

/-- The character after a backslash, with the text after it. -/
def readEscape : List Char → Option (Option Char × List Char)
  | '\x22' :: rest => some (some '\x22', rest)
  | '\\' :: rest => some (some '\\', rest)
  | '/' :: rest => some (some '/', rest)
  | 'b' :: rest => some (some '\x08', rest)
  | 'f' :: rest => some (some '\x0c', rest)
  | 'n' :: rest => some (some '\n', rest)
  | 'r' :: rest => some (some '\x0d', rest)
  | 't' :: rest => some (some '\t', rest)
  | 'u' :: rest => (unit? rest).map fun (unit, rest) => escapedChar unit rest
  | _ => none

/-- A string from after its opening quote on, with the characters read before in reverse. -/
def readString : Nat → (found : Option (List Char)) → List Char →
    Option (Option String × List Char)
  | 0, _, _ => none
  | n + 1, found, s =>
    match s with
    | [] => none
    | '\x22' :: rest => some (found.map fun cs => String.ofList cs.reverse, rest)
    | '\\' :: rest =>
      match readEscape rest with
      | some (c, rest) => readString n (found.bind fun cs => c.map (· :: cs)) rest
      | none => none
    | c :: rest => if c.toNat < 0x20 then none else readString n (found.map (c :: ·)) rest

/-! ## Values -/

/-- The text without its leading blanks. -/
def skip (s : List Char) : List Char := s.dropWhile isBlank

mutual

/-- A value, with the text after it. -/
def readValue : Nat → List Char → Option (JsonValue × List Char)
  | 0, _ => none
  | n + 1, s =>
    match skip s with
    | 'n' :: 'u' :: 'l' :: 'l' :: rest => some (.null, rest)
    | 't' :: 'r' :: 'u' :: 'e' :: rest => some (.bool true, rest)
    | 'f' :: 'a' :: 'l' :: 's' :: 'e' :: rest => some (.bool false, rest)
    | '\x22' :: rest => (readString n (some []) rest).map fun (t, rest) => (.string t, rest)
    | '[' :: rest =>
      match skip rest with
      | ']' :: rest => some (.array [], rest)
      | rest => (readItems n rest).map fun (vs, rest) => (.array vs, rest)
    | '{' :: rest =>
      match skip rest with
      | '}' :: rest => some (.object [], rest)
      | rest => (readMembers n rest).map fun (ms, rest) => (.object ms, rest)
    | s => readNumber s

/-- The items of an array up to its closing bracket. -/
def readItems : Nat → List Char → Option (List JsonValue × List Char)
  | 0, _ => none
  | n + 1, s =>
    match readValue n s with
    | none => none
    | some (v, rest) =>
      match skip rest with
      | ']' :: rest => some ([v], rest)
      | ',' :: rest => (readItems n rest).map fun (vs, rest) => (v :: vs, rest)
      | _ => none

/-- The members of an object up to its closing brace. -/
def readMembers : Nat → List Char → Option (List (Option String × JsonValue) × List Char)
  | 0, _ => none
  | n + 1, s =>
    match skip s with
    | '\x22' :: rest =>
      match readString n (some []) rest with
      | none => none
      | some (key, rest) =>
        match skip rest with
        | ':' :: rest =>
          match readValue n rest with
          | none => none
          | some (v, rest) =>
            match skip rest with
            | '}' :: rest => some ([(key, v)], rest)
            | ',' :: rest => (readMembers n rest).map fun (ms, rest) => ((key, v) :: ms, rest)
            | _ => none
        | _ => none
    | _ => none

end

/-- The value that a whole text is. -/
def parse? (text : String) : Option JsonValue :=
  let s := text.toList
  match readValue (2 * s.length + 2) s with
  | some (v, rest) => if (skip rest).isEmpty then some v else none
  | none => none

/-! ## Soundness -/

mutual

/-- The number of arrays and objects around the innermost value. -/
def depth : JsonValue → Nat
  | array vs => depths vs + 1
  | object ms => memberDepths ms + 1
  | _ => 0

/-- The largest depth of values. -/
def depths : List JsonValue → Nat
  | [] => 0
  | v :: vs => max (depth v) (depths vs)

/-- The largest depth of the values of members. -/
def memberDepths : List (Option String × JsonValue) → Nat
  | [] => 0
  | (_, v) :: ms => max (depth v) (memberDepths ms)

end

mutual

/-- Every number in the value is in range, and every string is one of characters. -/
def isSound : JsonValue → Bool
  | number finite => finite
  | string text => text.isSome
  | array vs => areSound vs
  | object ms => membersSound ms
  | _ => true

/-- The same of values. -/
def areSound : List JsonValue → Bool
  | [] => true
  | v :: vs => isSound v && areSound vs

/-- The same of members, keys included. -/
def membersSound : List (Option String × JsonValue) → Bool
  | [] => true
  | (k, v) :: ms => k.isSome && isSound v && membersSound ms

end

end JsonValue

end ScriptAtlas
