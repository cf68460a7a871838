/-
Lists without repetitions and in order: what becomes of their members, and that
they stay so.
-/
import Mathlib.Data.List.Sort
import ScriptAtlas.Ordered

namespace ScriptAtlas

theorem nodup_eraseDups {α : Type} [BEq α] [LawfulBEq α] (xs : List α) : xs.eraseDups.Nodup := by
  match xs with
  | [] => simp
  | x :: xs =>
    rw [List.eraseDups_cons]
    -- The recursion is on what is left of the list, which is no longer than its tail.
    have hshorter := List.length_filter_le (fun y => !y == x) xs
    refine List.nodup_cons.2 ⟨?_, nodup_eraseDups (xs.filter fun y => !y == x)⟩
    simp
termination_by xs.length

namespace Ordered

/-! ## Sorting -/

section

-- The orders are no instance arguments, since lists have two of them with the same meaning.
variable {α : Type} {le : LE α} {lt : LT α} [DecidableLE α]

theorem sort_eq_insertionSort (xs : List α) : sort xs = xs.insertionSort (· ≤ ·) := by
  have hinsert (a : α) (xs : List α) : insert a xs = xs.orderedInsert (· ≤ ·) a := by
    induction xs with
    | nil => rfl
    | cons b xs ih => rw [insert, List.orderedInsert, ih]
  exact congrArg (fun f => xs.foldr f []) (funext₂ hinsert)

@[simp] theorem mem_sort {a : α} {xs : List α} : a ∈ sort xs ↔ a ∈ xs := by
  rw [sort_eq_insertionSort, List.mem_insertionSort]

/-- A list without repetitions ascends when it is sorted. -/
theorem pairwise_sort [Std.IsLinearOrder α] [Std.LawfulOrderLT α] {xs : List α} (h : xs.Nodup) :
    (sort xs).Pairwise (· < ·) := by
  have hle : (xs.insertionSort (· ≤ ·)).Pairwise (· ≤ ·) := List.pairwise_insertionSort (· ≤ ·) xs
  have hnodup : (xs.insertionSort (· ≤ ·)).Nodup := (List.perm_insertionSort (· ≤ ·) xs).nodup_iff.2 h
  rw [sort_eq_insertionSort]
  exact hle.imp₂ (fun _ _ hab hne => Std.lt_of_le_of_ne hab hne) hnodup

end

/-! ## Tables -/

section

variable {κ β : Type} [LT κ] [DecidableLT κ] [DecidableEq κ] {key k : κ} {value : β}
  {entries : List (κ × β)}

theorem mem_put {e : κ × β} (h : e ∈ put key value entries) : e = (key, value) ∨ e ∈ entries := by
  induction entries with
  | nil => simpa [put] using h
  | cons first rest ih =>
    rw [put] at h
    split at h
    · simpa using h
    split at h
    · rcases List.mem_cons.1 h with h | h
      · exact .inl h
      · exact .inr (by simp [h])
    · rcases List.mem_cons.1 h with h | h
      · exact .inr (by simp [h])
      · exact (ih h).imp_right (List.mem_cons_of_mem first)

theorem mem_keys_put : k ∈ (put key value entries).map (·.1) ↔ k = key ∨ k ∈ entries.map (·.1) := by
  induction entries with
  | nil => simp [put]
  | cons e rest ih =>
    rw [put]
    split
    · simp
    split
    · rename_i he
      simp [he]
    · rw [List.map_cons, List.map_cons, List.mem_cons, List.mem_cons, ih]
      exact or_left_comm

theorem lookup_put : (put key value entries).lookup k = if k = key then some value else entries.lookup k := by
  induction entries with
  | nil => simp only [put, List.lookup_cons, List.lookup_nil]; grind
  | cons e rest ih =>
    rw [put]
    split
    · simp only [List.lookup_cons]; grind
    split
    · simp only [List.lookup_cons]; grind
    · simp only [List.lookup_cons, ih]; grind

/-- **One more entry** keeps the keys ascending. -/
theorem pairwise_put [IsStrictTotalOrder κ (· < ·)] (h : entries.Pairwise (·.1 < ·.1)) :
    (put key value entries).Pairwise (·.1 < ·.1) := by
  induction entries with
  | nil => simp [put]
  | cons first rest ih =>
    obtain ⟨hfirst, hrest⟩ := List.pairwise_cons.1 h
    rw [put]
    split
    · rename_i hlt
      refine List.pairwise_cons.2 ⟨fun e he => ?_, h⟩
      rcases List.mem_cons.1 he with rfl | he
      · exact hlt
      · exact IsTrans.trans _ _ _ hlt (hfirst e he)
    split
    · rename_i hkey
      exact List.pairwise_cons.2 ⟨fun e he => hkey ▸ hfirst e he, hrest⟩
    · rename_i hnot hne
      refine List.pairwise_cons.2 ⟨fun e he => ?_, ih hrest⟩
      rcases mem_put he with rfl | he
      · exact ((trichotomous_of (· < ·) first.1 key).resolve_right fun h => h.elim hne hnot)
      · exact hfirst e he

end

end Ordered

end ScriptAtlas
