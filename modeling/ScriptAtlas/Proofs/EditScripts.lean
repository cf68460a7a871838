/-
The distance of two texts is the least number of edits that lead from one to
the other: single characters put in, taken out or replaced, each anywhere in
what the text has become by then. From that it has the laws of a distance.

Two arguments carry this. The two rows that are written over in turn hold the rows
of the whole table (`toList_advance`), and these hold `cost`, the plain recursion on
both texts read backwards, so the recurrence is met. That no
sequence of edits does better is not in the recurrence: it follows because one
edit changes the cost against any third text by one at most (`Near`).
-/
import Mathlib.Order.Bounds.Defs
import ScriptAtlas.EditDistance

namespace ScriptAtlas.EditDistance

/-! ## Edits -/

/-- One edit of a text, at any place. -/
inductive Edit : List Char → List Char → Prop
  | insert (u v : List Char) (c : Char) : Edit (u ++ v) (u ++ c :: v)
  | delete (u v : List Char) (c : Char) : Edit (u ++ c :: v) (u ++ v)
  | replace (u v : List Char) (c d : Char) : Edit (u ++ c :: v) (u ++ d :: v)

/-- So many edits, one after another. -/
inductive Edits : Nat → List Char → List Char → Prop
  | none (a : List Char) : Edits 0 a a
  | step {n : Nat} {a b c : List Char} (h : Edit a b) (rest : Edits n b c) : Edits (n + 1) a c

variable {a b c : List Char} {m n : Nat}

theorem Edit.symm (h : Edit a b) : Edit b a := by
  cases h with
  | insert u v c => exact .delete u v c
  | delete u v c => exact .insert u v c
  | replace u v c d => exact .replace u v d c

theorem Edit.reverse (h : Edit a b) : Edit a.reverse b.reverse := by
  cases h with
  | insert u v c => simpa using Edit.insert v.reverse u.reverse c
  | delete u v c => simpa using Edit.delete v.reverse u.reverse c
  | replace u v c d => simpa using Edit.replace v.reverse u.reverse c d

/-- A character in front of a text does not hinder its edits. -/
theorem Edit.cons (h : Edit a b) (x : Char) : Edit (x :: a) (x :: b) := by
  cases h with
  | insert u v c => exact .insert (x :: u) v c
  | delete u v c => exact .delete (x :: u) v c
  | replace u v c d => exact .replace (x :: u) v c d

theorem Edit.length_le (h : Edit a b) : b.length ≤ a.length + 1 := by
  cases h <;> simp only [List.length_append, List.length_cons] <;> omega

theorem Edits.trans (h : Edits m a b) (h' : Edits n b c) : Edits (m + n) a c := by
  induction h with
  | none => rwa [Nat.zero_add]
  | step h rest ih => simpa only [Nat.add_right_comm] using Edits.step h (ih h')

theorem Edits.symm (h : Edits n a b) : Edits n b a := by
  induction h with
  | none a => exact .none a
  | step h rest ih => exact ih.trans (.step h.symm (.none _))

theorem Edits.reverse (h : Edits n a b) : Edits n a.reverse b.reverse := by
  induction h with
  | none a => exact .none a.reverse
  | step h rest ih => exact .step h.reverse ih

theorem Edits.cons (h : Edits n a b) (x : Char) : Edits n (x :: a) (x :: b) := by
  induction h with
  | none a => exact .none (x :: a)
  | step h rest ih => exact .step (h.cons x) ih

theorem Edits.length_le (h : Edits n a b) : b.length ≤ a.length + n := by
  induction h with
  | none => exact Nat.le_refl _
  | step h rest ih =>
    have := h.length_le
    omega

/-- Of two numbers of edits the smaller one will do. -/
theorem Edits.min (h : Edits m a b) (h' : Edits n a b) : Edits (min m n) a b := by
  rcases Nat.le_total m n with hle | hle
  · rwa [Nat.min_eq_left hle]
  · rwa [Nat.min_eq_right hle]

theorem edits_zero_iff : Edits 0 a b ↔ a = b := by
  refine ⟨fun h => ?_, fun h => h ▸ .none a⟩
  cases h
  rfl

/-- A text is put together by as many edits as it has characters. -/
theorem edits_nil (b : List Char) : Edits b.length [] b := by
  induction b with
  | nil => exact .none []
  | cons c b ih => exact .step (.insert [] [] c) (ih.cons c)

theorem edits_append (p s : List Char) : Edits s.length p (p ++ s) := by
  induction p with
  | nil => exact edits_nil s
  | cons c p ih => exact ih.cons c

/-! ## The cost of two texts -/

/-- The cost of turning one text into another from its front on: the first characters are a pair,
or one of them stands alone. -/
def cost : List Char → List Char → Nat
  | [], b => b.length
  | a, [] => a.length
  | c :: a, d :: b =>
    min (min (cost (c :: a) b + 1) (cost a (d :: b) + 1)) (cost a b + if c = d then 0 else 1)

@[simp] theorem cost_nil_left (b : List Char) : cost [] b = b.length := by
  simp [cost]

@[simp] theorem cost_nil_right (a : List Char) : cost a [] = a.length := by
  cases a <;> simp [cost]

theorem cost_cons_cons (c d : Char) (a b : List Char) : cost (c :: a) (d :: b) =
    min (min (cost (c :: a) b + 1) (cost a (d :: b) + 1)) (cost a b + if c = d then 0 else 1) := by
  rw [cost]

/-- The cost is paid by edits. -/
theorem edits_cost : ∀ a b : List Char, Edits (cost a b) a b
  | [], b => by simpa using edits_nil b
  | c :: a, [] => by simpa using (edits_nil (c :: a)).symm
  | c :: a, d :: b => by
    have hinsert : Edits (cost (c :: a) b + 1) (c :: a) (d :: b) :=
      (edits_cost (c :: a) b).trans (.step (.insert [] b d) (.none _))
    have hdelete : Edits (cost a (d :: b) + 1) (c :: a) (d :: b) :=
      .step (.delete [] a c) (edits_cost a (d :: b))
    have hpair : Edits (cost a b + if c = d then 0 else 1) (c :: a) (d :: b) := by
      by_cases h : c = d
      · subst h
        simpa using (edits_cost a b).cons c
      · rw [if_neg h]
        exact .step (.replace [] a c d) ((edits_cost a b).cons d)
    rw [cost_cons_cons]
    exact (hinsert.min hdelete).min hpair
termination_by a b => a.length + b.length

/-! ## One edit costs one at most -/

/-- Against every other text, the first text costs at most one more than the second. -/
def Near (a b : List Char) : Prop := ∀ t, cost a t ≤ cost b t + 1

theorem Near.cons (h : Near a b) (x : Char) : Near (x :: a) (x :: b) := by
  intro t
  induction t with
  | nil =>
    have := h []
    simp only [cost_nil_right, List.length_cons] at this ⊢
    omega
  | cons d t ih =>
    have h₁ := h (d :: t)
    have h₂ := h t
    simp only [cost_cons_cons]
    omega

theorem near_delete (x : Char) (a : List Char) : Near (x :: a) a := by
  intro t
  cases t with
  | nil => simp
  | cons d t =>
    rw [cost_cons_cons]
    omega

theorem near_insert (x : Char) (a : List Char) : Near a (x :: a) := by
  intro t
  induction t with
  | nil =>
    simp only [cost_nil_right, List.length_cons]
    omega
  | cons d t ih =>
    -- one more character of the other text costs one at most
    have hmore : cost a (d :: t) ≤ cost a t + 1 := by
      cases a with
      | nil => simp
      | cons c a =>
        rw [cost_cons_cons]
        omega
    rw [cost_cons_cons]
    omega

theorem near_replace (x y : Char) (a : List Char) : Near (x :: a) (y :: a) := by
  intro t
  induction t with
  | nil => simp
  | cons d t ih =>
    simp only [cost_cons_cons]
    split <;> split <;> omega

theorem near_of_edit (h : Edit a b) : Near a b := by
  have hcons (u : List Char) {a b : List Char} (h : Near a b) : Near (u ++ a) (u ++ b) := by
    induction u with
    | nil => exact h
    | cons x u ih => exact ih.cons x
  cases h with
  | insert u v c => exact hcons u (near_insert c v)
  | delete u v c => exact hcons u (near_delete c v)
  | replace u v c d => exact hcons u (near_replace c d v)

theorem cost_self (a : List Char) : cost a a = 0 := by
  induction a with
  | nil => simp
  | cons c a ih => simp [cost_cons_cons, ih]

/-- No sequence of edits does with less than the cost. -/
theorem cost_le_of_edits (h : Edits n a b) : cost a b ≤ n := by
  induction h with
  | none a => exact Nat.le_of_eq (cost_self a)
  | @step n a b c h rest ih =>
    have := near_of_edit h c
    omega

/-! ## Rows -/

/-- The entries of a row after the first. `left` is the entry before them, and the last argument is
the row above from the entry above `left` on. -/
def rowFrom (a : Char) : (left : Nat) → List Char → List Nat → List Nat
  | left, b :: bs, diagonal :: above :: rest =>
    let entry := min (min (left + 1) (above + 1)) (diagonal + if a = b then 0 else 1)
    entry :: rowFrom a entry bs (above :: rest)
  | _, _, _ => []

/-- The row for one more character of the first text. -/
def nextRow (b : List Char) (row : List Nat) (a : Char) : List Nat :=
  let first := row.headD 0 + 1
  first :: rowFrom a first b row

/-- Up to a cell that was just written, a row is what stood before it, and the cell. -/
theorem take_toList_set {n : Nat} (row : Vector Nat n) {j : Nat} (hj : j < n) (cell : Nat) :
    (row.set j cell).toList.take (j + 1) = row.toList.take j ++ [cell] := by
  have hlength : j < (row.toList.set j cell).length := by
    rw [List.length_set, Vector.length_toList]
    exact hj
  rw [Vector.toList_set, List.take_succ_eq_append_getElem hlength, List.take_set_of_le (Nat.le_refl j),
    List.getElem_set_self]

/-- **The cells that are written** are the entries of the row. What stood before them stays, and
nothing is left of what the buffer held behind them. -/
theorem toList_fill {n : Nat} (x : Char) (above : Vector Nat (n + 1)) (rest : List Char) (j : Nat)
    (h : j + rest.length = n) (current : Vector Nat (n + 1)) :
    (fill x above rest j h current).toList =
      current.toList.take (j + 1) ++ rowFrom x current[j] rest (above.toList.drop j) := by
  induction rest generalizing j current with
  | nil =>
    have hall : current.toList.take (j + 1) = current.toList := by
      refine List.take_of_length_le ?_
      rw [Vector.length_toList, ← h]
      exact Nat.le_refl _
    rw [fill, hall, rowFrom, List.append_nil]
    simp
  | cons y rest ih =>
    rw [List.length_cons] at h
    have hj : j + 1 < n + 1 := by omega
    have hdrop {k : Nat} (hk : k < n + 1) :
        above.toList.drop k = above[k] :: above.toList.drop (k + 1) := by
      rw [List.drop_eq_getElem_cons (by rwa [Vector.length_toList]), Vector.getElem_toList]
    rw [fill, ih, take_toList_set current hj, hdrop (Nat.lt_of_succ_lt hj), hdrop hj, rowFrom]
    simp

/-- **The row that was completed last** is the last row of the table. -/
theorem toList_advance (b : List Char) (i : Nat) (a : List Char) (rows : Rows b.length)
    (hfirst : rows.above.toList.headD 0 = i) :
    (advance b i a rows).above.toList = a.foldl (nextRow b) rows.above.toList := by
  induction a generalizing i rows with
  | nil => rfl
  | cons x a ih =>
    have hrow : (fill x rows.above b 0 (Nat.zero_add _) (rows.current.set 0 (i + 1))).toList =
        nextRow b rows.above.toList x := by
      rw [toList_fill, take_toList_set _ (Nat.succ_pos _), Vector.getElem_set_self, nextRow, hfirst]
      rfl
    rw [advance, List.foldl_cons, ← hrow]
    refine ih (i + 1) _ ?_
    rw [hrow, ← hfirst]
    rfl

/-- The costs of `a` against the text `b`, and against it with more and more of `rest` put in front. -/
def costs (a : List Char) : (b rest : List Char) → List Nat
  | b, [] => [cost a b]
  | b, d :: rest => cost a b :: costs a (d :: b) rest

theorem costs_eq_cons (a b rest : List Char) : ∃ row, costs a b rest = cost a b :: row := by
  cases rest with
  | nil => exact ⟨[], rfl⟩
  | cons d rest => exact ⟨_, rfl⟩

/-- **Each entry is computed** from the one before it and the two above. -/
theorem rowFrom_costs (x : Char) (a b rest : List Char) :
    cost (x :: a) b :: rowFrom x (cost (x :: a) b) rest (costs a b rest) = costs (x :: a) b rest := by
  induction rest generalizing b with
  | nil => simp [rowFrom, costs]
  | cons d rest ih =>
    obtain ⟨row, hrow⟩ := costs_eq_cons a (d :: b) rest
    have hentry := cost_cons_cons x d a b
    have htail := ih (d :: b)
    rw [hrow] at htail
    simp only [costs, hrow, rowFrom]
    rw [← hentry, htail]

theorem nextRow_costs (x : Char) (a rest : List Char) :
    nextRow rest (costs a [] rest) x = costs (x :: a) [] rest := by
  obtain ⟨row, hrow⟩ := costs_eq_cons a [] rest
  have hfirst : (costs a [] rest).headD 0 + 1 = cost (x :: a) [] := by
    rw [hrow]
    simp
  simp only [nextRow, hfirst]
  exact rowFrom_costs x a [] rest

theorem costs_nil (b rest : List Char) :
    costs [] b rest = List.range' b.length (rest.length + 1) := by
  induction rest generalizing b with
  | nil => simp [costs]
  | cons d rest ih => simp [costs, ih, List.range'_succ]

/-- The row after any number of characters. -/
theorem foldl_nextRow (s a rest : List Char) :
    s.foldl (nextRow rest) (costs a [] rest) = costs (s.reverse ++ a) [] rest := by
  induction s generalizing a with
  | nil => rfl
  | cons x s ih => simp [nextRow_costs, ih]

theorem getLastD_costs (a b rest : List Char) :
    (costs a b rest).getLastD 0 = cost a (rest.reverse ++ b) := by
  induction rest generalizing b with
  | nil => rfl
  | cons d rest ih =>
    obtain ⟨row, hrow⟩ := costs_eq_cons a (d :: b) rest
    have hlast := ih (d :: b)
    rw [hrow] at hlast
    simpa [costs, hrow] using hlast

/-- The distance as the last entry of the last row of the table. -/
def tableDistance (a b : List Char) : Nat :=
  (a.foldl (nextRow b) (List.range (b.length + 1))).getLastD 0

/-- The last entry of the last row is the cost of the texts read backwards. -/
theorem tableDistance_eq_cost (a b : List Char) : tableDistance a b = cost a.reverse b.reverse := by
  have hstart : List.range (b.length + 1) = costs [] [] b := by
    rw [costs_nil, List.range_eq_range']
    rfl
  rw [tableDistance, hstart, foldl_nextRow, getLastD_costs, List.append_nil, List.append_nil]

theorem getElem_eq_getLastD {n : Nat} (row : Vector Nat (n + 1)) : row[n] = row.toList.getLastD 0 := by
  rw [List.getLastD_eq_getLast?, List.getLast?_eq_getElem?, Vector.length_toList, Nat.add_sub_cancel,
    Vector.getElem?_toList, Vector.getElem?_eq_getElem (Nat.lt_succ_self n), Option.getD_some]

/-- **Two rows are enough.** Writing over two rows in turn, and answering at once where one of the
texts is empty, gives the last entry of the table. -/
theorem distance_eq_table (a b : List Char) : distance a b = tableDistance a b := by
  by_cases ha : a = []
  · rw [tableDistance_eq_cost, ha]
    simp [distance]
  · by_cases hb : b = []
    · rw [tableDistance_eq_cost, hb]
      simp [distance, ha]
    · have hstart : (Vector.ofFn fun k : Fin (b.length + 1) => k.val).toList =
          List.range (b.length + 1) := by
        rw [Vector.toList_ofFn]
        exact List.ext_getElem (by simp) fun k _ _ => by rw [List.getElem_ofFn, List.getElem_range]
      simp only [distance, List.isEmpty_iff, ha, hb, if_false, getElem_eq_getLastD]
      rw [toList_advance _ _ _ _ (by rw [hstart, List.range_succ_eq_map]; rfl), hstart]
      rfl

theorem distance_eq_cost (a b : List Char) : distance a b = cost a.reverse b.reverse := by
  rw [distance_eq_table, tableDistance_eq_cost]

/-! ## The distance -/

/-- **The distance is the least number of edits.** -/
theorem isLeast_distance (a b : List Char) : IsLeast {n | Edits n a b} (distance a b) := by
  constructor
  · have h := (edits_cost a.reverse b.reverse).reverse
    rw [← distance_eq_cost, List.reverse_reverse, List.reverse_reverse] at h
    exact h
  · intro n h
    rw [distance_eq_cost]
    exact cost_le_of_edits (Edits.reverse h)

theorem edits_distance (a b : List Char) : Edits (distance a b) a b := (isLeast_distance a b).1

theorem distance_le_of_edits (h : Edits n a b) : distance a b ≤ n := (isLeast_distance a b).2 h

theorem distance_comm (a b : List Char) : distance a b = distance b a :=
  Nat.le_antisymm (distance_le_of_edits (edits_distance b a).symm)
    (distance_le_of_edits (edits_distance a b).symm)

theorem distance_eq_zero_iff : distance a b = 0 ↔ a = b := by
  constructor
  · intro h
    have hedits := edits_distance a b
    rw [h] at hedits
    exact edits_zero_iff.1 hedits
  · intro h
    exact Nat.le_zero.1 (distance_le_of_edits (edits_zero_iff.2 h))

theorem distance_triangle (a b c : List Char) : distance a c ≤ distance a b + distance b c :=
  distance_le_of_edits ((edits_distance a b).trans (edits_distance b c))

/-- A text is as far from a longer one that starts with it as that one has more characters. -/
theorem distance_append (p s : List Char) : distance p (p ++ s) = s.length := by
  apply Nat.le_antisymm (distance_le_of_edits (edits_append p s))
  have h := (edits_distance p (p ++ s)).length_le
  rw [List.length_append] at h
  omega

/-- **The distance of texts is the metric of their edits.** It is the least number of characters put
in, taken out or replaced on the way from one to the other. So it is the same in both directions, it
is zero between equal texts only, a detour is never shorter, and what is added at the end of a text
counts character by character. -/
theorem distance_is_edit_metric (a b : List Char) :
    IsLeast {n | Edits n a b} (distance a b) ∧
    distance a b = distance b a ∧
    (distance a b = 0 ↔ a = b) ∧
    (∀ c, distance a c ≤ distance a b + distance b c) ∧
    distance a (a ++ b) = b.length :=
  ⟨isLeast_distance a b, distance_comm a b, distance_eq_zero_iff, distance_triangle a b,
    distance_append a b⟩

end ScriptAtlas.EditDistance
