/-
The edit distance of two texts: the least number of single-character
insertions, deletions and substitutions that turn one into the other. It is
computed row by row, one row for each character of the first text. Two rows are
kept; the one that is no longer needed is written over.
-/

namespace ScriptAtlas.EditDistance

/-- The row that was completed last, and the one that is written next. -/
structure Rows (n : Nat) where
  above : Vector Nat (n + 1)
  current : Vector Nat (n + 1)

/-- Write the cells after the `j`-th into the current row, for the character `x` of the first text
against the rest of the second. -/
def fill {n : Nat} (x : Char) (above : Vector Nat (n + 1)) :
    (rest : List Char) → (j : Nat) → j + rest.length = n → Vector Nat (n + 1) → Vector Nat (n + 1)
  | [], _, _, current => current
  | y :: rest, j, h, current =>
    have hj : j + 1 < n + 1 := by
      rw [List.length_cons] at h
      omega
    let cell := min (min (current[j] + 1) (above[j + 1] + 1)) (above[j] + if x = y then 0 else 1)
    fill x above rest (j + 1) (by rw [List.length_cons] at h; omega) (current.set (j + 1) cell)

/-- The rows after the characters of the first text from the `i`-th on. Each writes the current row,
and then the two rows change places. -/
def advance (b : List Char) : (i : Nat) → List Char → Rows b.length → Rows b.length
  | _, [], rows => rows
  | i, x :: rest, rows =>
    let current := fill x rows.above b 0 (Nat.zero_add _) (rows.current.set 0 (i + 1))
    advance b (i + 1) rest { above := current, current := rows.above }

/-- The edit distance of two texts. -/
def distance (a b : List Char) : Nat :=
  if a.isEmpty then b.length
  else if b.isEmpty then a.length
  else
    let start := { above := Vector.ofFn (·.val), current := Vector.replicate (b.length + 1) 0 }
    (advance b 0 a start).above[b.length]

end ScriptAtlas.EditDistance
