/-
Keeping the first of each kind, and putting what is of one kind together. Both are
said of a list and a key: `firsts` leaves out what repeats the key of an earlier
member, and `grouped` moves the members of one key to the first of them, so that
the keys stand in the order in which they first appear and the members of a key in
the order of the list.

Merging parameters and merging globals come down to these two. Both are computed
by one pass over a list that looks back at what it has kept so far, which is what
`firsts_append` and `grouped_append_grouped` are for.
-/
import Mathlib.Data.List.Induction
import Mathlib.Data.List.Nodup
import Mathlib.Data.List.Perm.Basic

namespace ScriptAtlas

variable {α κ : Type} [DecidableEq κ] {key : α → κ} {xs : List α} {a b : α} {k : κ}

/-! ## The first of each key -/

/-- The members of a list without those that repeat the key of an earlier one. -/
def firsts (key : α → κ) : List α → List α
  | [] => []
  | a :: as => a :: (firsts key as).filter (key · ≠ key a)

/-- A member of a list that no earlier one has the key of. -/
def IsFirst (key : α → κ) (xs : List α) (a : α) : Prop :=
  ∃ before after, xs = before ++ a :: after ∧ ∀ b ∈ before, key b ≠ key a

@[simp] theorem firsts_nil : firsts key [] = [] := rfl

theorem firsts_cons : firsts key (a :: xs) = a :: (firsts key xs).filter (key · ≠ key a) := rfl

theorem firsts_sublist (key : α → κ) (xs : List α) : (firsts key xs).Sublist xs := by
  induction xs with
  | nil => exact .slnil
  | cons a xs ih => exact (List.filter_sublist.trans ih).cons_cons a

theorem pairwise_firsts (key : α → κ) (xs : List α) :
    (firsts key xs).Pairwise fun a b => key a ≠ key b := by
  induction xs with
  | nil => exact .nil
  | cons a xs ih =>
    refine .cons (fun b hb => ?_) (ih.filter _)
    have hne : key b ≠ key a := by simpa using (List.mem_filter.1 hb).2
    exact hne.symm

/-- Every key that occurs is kept. -/
@[simp] theorem mem_map_firsts : k ∈ (firsts key xs).map key ↔ k ∈ xs.map key := by
  induction xs with
  | nil => rfl
  | cons a xs ih =>
    rw [firsts_cons, List.map_cons, List.map_cons, List.mem_cons, List.mem_cons, ← ih]
    by_cases hk : k = key a
    · simp [hk]
    · simp only [hk, false_or, List.mem_map, List.mem_filter]
      constructor
      · rintro ⟨b, ⟨hb, -⟩, hbk⟩
        exact ⟨b, hb, hbk⟩
      · rintro ⟨b, hb, rfl⟩
        exact ⟨b, ⟨hb, by simpa using hk⟩, rfl⟩

theorem mem_firsts : a ∈ firsts key xs ↔ IsFirst key xs a := by
  induction xs with
  | nil => simp [IsFirst]
  | cons b xs ih =>
    rw [firsts_cons, List.mem_cons, List.mem_filter, ih]
    constructor
    · rintro (rfl | ⟨⟨before, after, rfl, hbefore⟩, hne⟩)
      · exact ⟨[], xs, rfl, List.forall_mem_nil _⟩
      · have hb : key a ≠ key b := of_decide_eq_true hne
        exact ⟨b :: before, after, rfl, List.forall_mem_cons.2 ⟨hb.symm, hbefore⟩⟩
    · rintro ⟨before, after, hsplit, hbefore⟩
      cases before with
      | nil => exact .inl (List.cons.inj hsplit).1.symm
      | cons c before =>
        obtain ⟨rfl, rfl⟩ := List.cons.inj hsplit
        obtain ⟨hb, hbefore⟩ := List.forall_mem_cons.1 hbefore
        exact .inr ⟨⟨before, after, rfl, hbefore⟩, decide_eq_true hb.symm⟩

/-- Every member has a first one of its key. -/
theorem exists_isFirst (key : α → κ) (ha : a ∈ xs) : ∃ b, IsFirst key xs b ∧ key b = key a := by
  have hkept : key a ∈ (firsts key xs).map key := mem_map_firsts.2 (List.mem_map_of_mem ha)
  obtain ⟨b, hb, hkey⟩ := List.mem_map.1 hkept
  exact ⟨b, mem_firsts.1 hb, hkey⟩

/-- What follows is kept as far as it brings new keys. -/
theorem firsts_append (key : α → κ) (xs ys : List α) :
    firsts key (xs ++ ys) = firsts key xs ++ (firsts key ys).filter (key · ∉ xs.map key) := by
  induction xs with
  | nil => simp
  | cons a xs ih =>
    rw [List.cons_append, firsts_cons, firsts_cons, ih, List.filter_append, List.filter_filter,
      List.cons_append]
    congr 3
    funext b
    simp [not_or]

theorem firsts_concat (key : α → κ) (xs : List α) (a : α) :
    firsts key (xs ++ [a]) = if key a ∈ xs.map key then firsts key xs else firsts key xs ++ [a] := by
  rw [firsts_append]
  split <;> simp_all [firsts_cons]

theorem firsts_eq_self (h : xs.Pairwise fun a b => key a ≠ key b) : firsts key xs = xs := by
  induction xs with
  | nil => rfl
  | cons a xs ih =>
    obtain ⟨ha, hxs⟩ := List.pairwise_cons.1 h
    rw [firsts_cons, ih hxs, List.filter_eq_self.2]
    exact fun b hb => by simpa using (ha b hb).symm

theorem nodup_firsts_id (ks : List κ) : (firsts id ks).Nodup := pairwise_firsts id ks

@[simp] theorem mem_firsts_id {ks : List κ} : k ∈ firsts id ks ↔ k ∈ ks := by
  simpa using @mem_map_firsts κ κ _ id ks k

theorem firsts_id_concat (ks : List κ) (k : κ) :
    firsts id (ks ++ [k]) = if k ∈ ks then firsts id ks else firsts id ks ++ [k] := by
  simpa using firsts_concat id ks k

/-- What goes with the key first appears in the same order where only the first of each key is kept. -/
theorem firsts_map_firsts {β : Type} [DecidableEq β] {value : α → β}
    (hvalue : ∀ a b, key a = key b → value a = value b) (xs : List α) :
    firsts id ((firsts key xs).map value) = firsts id (xs.map value) := by
  induction xs using List.reverseRecOn with
  | nil => rfl
  | append_singleton xs a ih =>
    have hsame : value a ∈ (firsts key xs).map value ↔ value a ∈ xs.map value := by
      rw [← mem_firsts_id, ih, mem_firsts_id]
    rw [firsts_concat, List.map_append, List.map_singleton, firsts_id_concat]
    split
    · rename_i hkey
      obtain ⟨b, hb, hba⟩ := List.mem_map.1 hkey
      rw [ih, if_pos (List.mem_map.2 ⟨b, hb, hvalue b a hba⟩)]
    · rw [List.map_append, List.map_singleton, firsts_id_concat, ih]
      exact if_congr hsame rfl rfl

/-! ## What has one key together -/

theorem mem_filter_key : a ∈ xs.filter (key · = k) ↔ a ∈ xs ∧ key a = k := by simp

/-- The keys of a list in the order in which they first appear, each with its members. -/
def groups (key : α → κ) (xs : List α) : List (κ × List α) :=
  (firsts id (xs.map key)).map fun k => (k, xs.filter (key · = k))

/-- The members of a list, those of one key behind the first of them. -/
def grouped (key : α → κ) (xs : List α) : List α := (groups key xs).flatMap (·.2)

theorem grouped_eq (key : α → κ) (xs : List α) :
    grouped key xs = (firsts id (xs.map key)).flatMap fun k => xs.filter (key · = k) := by
  rw [grouped, groups, List.flatMap_map]

theorem filter_flatMap_filter (ks : List κ) (hnodup : ks.Nodup) (xs : List α) (k : κ) :
    (ks.flatMap fun j => xs.filter (key · = j)).filter (key · = k) =
      if k ∈ ks then xs.filter (key · = k) else [] := by
  induction ks with
  | nil => rfl
  | cons j ks ih =>
    obtain ⟨hj, hnodup⟩ := List.nodup_cons.1 hnodup
    rw [List.flatMap_cons, List.filter_append, List.filter_filter, ih hnodup]
    by_cases hk : k = j
    · subst hk
      simp [hj]
    · have hnone : xs.filter (fun a => decide (key a = k) && decide (key a = j)) = [] := by
        refine List.filter_eq_nil_iff.2 fun a _ hboth => hk ?_
        obtain ⟨hak, haj⟩ : key a = k ∧ key a = j := by simpa using hboth
        exact hak.symm.trans haj
      simp [hnone, hk]

/-- The members of a key stay in their order. -/
theorem filter_grouped (key : α → κ) (xs : List α) (k : κ) :
    (grouped key xs).filter (key · = k) = xs.filter (key · = k) := by
  rw [grouped_eq, filter_flatMap_filter _ (nodup_firsts_id _)]
  split
  · rfl
  · rename_i hk
    refine (List.filter_eq_nil_iff.2 fun a ha hak => hk ?_).symm
    rw [mem_firsts_id]
    exact List.mem_map.2 ⟨a, ha, of_decide_eq_true hak⟩

/-- Nothing is lost and nothing is repeated. -/
theorem grouped_perm (key : α → κ) (xs : List α) : (grouped key xs).Perm xs := by
  classical
  refine List.perm_iff_count.2 fun a => ?_
  have hself (zs : List α) : (zs.filter (key · = key a)).count a = zs.count a :=
    List.count_filter (decide_eq_true rfl)
  rw [← hself, filter_grouped, hself]

@[simp] theorem mem_grouped : a ∈ grouped key xs ↔ a ∈ xs := (grouped_perm key xs).mem_iff

theorem firsts_id_of_forall_eq {ks : List κ} (hne : ks ≠ []) (h : ∀ j ∈ ks, j = k) :
    firsts id ks = [k] := by
  obtain ⟨j, ks, rfl⟩ := List.exists_cons_of_ne_nil hne
  obtain ⟨rfl, hks⟩ := List.forall_mem_cons.1 h
  rw [firsts_cons, List.filter_eq_nil_iff.2]
  intro i hi
  simpa using hks i (mem_firsts_id.1 hi)

theorem firsts_map_flatMap (ks : List κ) (hnodup : ks.Nodup) (hks : ∀ k ∈ ks, k ∈ xs.map key) :
    firsts id ((ks.flatMap fun k => xs.filter (key · = k)).map key) = ks := by
  induction ks with
  | nil => rfl
  | cons k ks ih =>
    obtain ⟨hk, hks⟩ := List.forall_mem_cons.1 hks
    obtain ⟨hnot, hnodup⟩ := List.nodup_cons.1 hnodup
    obtain ⟨a, ha, hak⟩ := List.mem_map.1 hk
    have hkeys : ∀ j ∈ (xs.filter (key · = k)).map key, j = k := by
      intro j hj
      obtain ⟨b, hb, rfl⟩ := List.mem_map.1 hj
      exact (mem_filter_key.1 hb).2
    have hne : (xs.filter (key · = k)).map key ≠ [] :=
      List.ne_nil_of_mem (List.mem_map_of_mem (mem_filter_key.2 ⟨ha, hak⟩))
    rw [List.flatMap_cons, List.map_append, firsts_append, firsts_id_of_forall_eq hne hkeys,
      ih hnodup hks, List.filter_eq_self.2, List.singleton_append]
    intro j hj
    rw [List.map_id, decide_eq_true_eq]
    exact fun hmem => hnot (hkeys j hmem ▸ hj)

/-- Keys stand in the order in which they first appear. -/
theorem firsts_map_grouped (key : α → κ) (xs : List α) :
    firsts id ((grouped key xs).map key) = firsts id (xs.map key) := by
  rw [grouped_eq]
  exact firsts_map_flatMap _ (nodup_firsts_id _) fun k hk => mem_firsts_id.1 hk

/-- Grouping again with more behind gives what grouping all at once gives. -/
theorem grouped_append_grouped (key : α → κ) (xs ys : List α) :
    grouped key (grouped key xs ++ ys) = grouped key (xs ++ ys) := by
  have hkeys : firsts id ((grouped key xs ++ ys).map key) = firsts id ((xs ++ ys).map key) := by
    rw [List.map_append, List.map_append, firsts_append, firsts_append, firsts_map_grouped]
    congr 2
    funext k
    simp
  rw [grouped_eq, hkeys, grouped_eq key (xs ++ ys)]
  congr 1
  funext k
  rw [List.filter_append, List.filter_append, filter_grouped]

/-- Groups stand in the order in which their keys first appear. -/
theorem pairwise_grouped (key : α → κ) (xs : List α) : (grouped key xs).Pairwise fun a b =>
    (firsts id (xs.map key)).idxOf (key a) ≤ (firsts id (xs.map key)).idxOf (key b) := by
  rw [grouped_eq, List.pairwise_flatMap]
  constructor
  · intro k _
    refine List.pairwise_of_forall_mem_list fun a ha b hb => ?_
    have hsame : key a = key b := (mem_filter_key.1 ha).2.trans (mem_filter_key.1 hb).2.symm
    exact Nat.le_of_eq (by rw [hsame])
  · refine List.pairwise_iff_getElem.2 fun i j hi hj hij a ha b hb => ?_
    rw [(mem_filter_key.1 ha).2, (mem_filter_key.1 hb).2, (nodup_firsts_id _).idxOf_getElem,
      (nodup_firsts_id _).idxOf_getElem]
    exact Nat.le_of_lt hij

/-- What stands between two members of a key has it too. -/
theorem key_eq_of_between {before between after : List α}
    (h : grouped key xs = before ++ a :: (between ++ b :: after)) (hab : key a = key b) :
    ∀ c ∈ between, key c = key a := by
  intro c hc
  have hmem : key a ∈ firsts id (xs.map key) := by
    have ha : a ∈ grouped key xs := by simp [h]
    exact mem_firsts_id.2 (List.mem_map_of_mem (mem_grouped.1 ha))
  have hranks := pairwise_grouped key xs
  rw [h] at hranks
  obtain ⟨-, hranks, -⟩ := List.pairwise_append.1 hranks
  obtain ⟨hfirst, hrest⟩ := List.pairwise_cons.1 hranks
  obtain ⟨-, -, hlast⟩ := List.pairwise_append.1 hrest
  have hac := hfirst c (List.mem_append_left _ hc)
  have hcb := hlast c hc b List.mem_cons_self
  rw [← hab] at hcb
  exact ((List.idxOf_inj hmem).1 (Nat.le_antisymm hac hcb)).symm

end ScriptAtlas
