/-
Sizes in bytes for people to read: in the largest unit that they reach, with
two places. A size is first taken to the nearest number of 53 significant
bits. Of two equally near values, here and in the last place, the even one
is taken.
-/

namespace ScriptAtlas.Text

/-- The quotient rounded to the nearest whole number, a tie to the even one. -/
def roundDiv (a b : Nat) : Nat :=
  let q := a / b
  let twice := 2 * (a % b)
  if twice < b ∨ (twice = b ∧ q % 2 = 0) then q else q + 1

/-- The nearest number that has at most `bits` significant bits. -/
def significant (bits n : Nat) : Nat :=
  let unit := Nat.pow 2 (n.log2 + 1 - bits)
  roundDiv n unit * unit

/-- The quotient with two places. -/
def twoPlaces (a b : Nat) : String :=
  let hundredths := roundDiv (100 * a) b
  let places := toString (hundredths % 100)
  toString (hundredths / 100) ++ "." ++ (if hundredths % 100 < 10 then "0" ++ places else places)

/-- The units of size from the largest down. -/
def sizeUnits : List (Nat × String) :=
  [(1024 * 1024 * 1024, "GB"), (1024 * 1024, "MB"), (1024, "KB")]

/-- A size for people to read. -/
def sizeText (n : Nat) : String :=
  match sizeUnits.find? (·.1 ≤ n) with
  | some (unit, name) => twoPlaces (significant 53 n) unit ++ " " ++ name
  | none => toString n ++ " B"

end ScriptAtlas.Text
