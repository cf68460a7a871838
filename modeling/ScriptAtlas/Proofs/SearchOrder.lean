/-
What a search by name finds and in which order. Each place of the list of names
counts on its own, so that a repeated name is found as often as it stands there.
A place is found exactly if its name matches (`Matches`), and what is found
stands in the order of `rank`, which no two places share: the answer is
determined by the two.

The sort keeps the order of what ranks equal (`pairwise_mergeSort_of_pairwise`).
The two consequences rest on facts about edits: a text is as far from one that
starts with it as that one is longer, and only equal texts have distance zero.
-/
import Mathlib.Data.List.Basic
import Mathlib.Data.Prod.Lex
import ScriptAtlas.NameSearch
import ScriptAtlas.Proofs.EditScripts

namespace ScriptAtlas.NameSearch

open EditDistance

/-! ## Matches and their ranks -/

/-- The text in lower case. -/
def lowered (s : String) : List Char := Text.lower s.toList

/-- In lower case, the name starts with the typed text or takes few edits from it. -/
def Matches (typed name : String) : Prop :=
  lowered typed <+: lowered name ∨
    ∃ n ≤ max 2 ((lowered typed).length / 3), Edits n (lowered typed) (lowered name)

/-- The rank of a name and its place in the list, the smaller the better: names that start with the
typed text come before others, then near ones before far ones, short ones before long ones, and
earlier places before later ones. -/
def rank (typed : String) (x : String × Nat) : Nat ×ₗ Nat ×ₗ Nat ×ₗ Nat :=
  toLex (if lowered typed <+: lowered x.1 then 0 else 1,
    toLex (distance (lowered typed) (lowered x.1), toLex (x.1.length, x.2)))

/-- What decides the rank of a hit, the smaller the better. -/
def Hit.key (h : Hit) : Nat ×ₗ Nat ×ₗ Nat :=
  toLex (if h.leads then 0 else 1, toLex (h.distance, h.length))

theorem Hit.atLeast_iff {a b : Hit} : a.atLeast b = true ↔ a.key ≤ b.key := by
  simp only [Hit.atLeast, Hit.key, Prod.Lex.toLex_le_toLex]
  by_cases hd : a.distance = b.distance
  · cases a.leads <;> cases b.leads <;> simp [hd]
  · cases a.leads <;> cases b.leads <;> simp [hd]

theorem Hit.atLeast_trans (a b c : Hit) (hab : a.atLeast b = true) (hbc : b.atLeast c = true) :
    a.atLeast c = true := by
  rw [Hit.atLeast_iff] at hab hbc ⊢
  exact hab.trans hbc

theorem Hit.atLeast_total (a b : Hit) : (a.atLeast b || b.atLeast a) = true := by
  rw [Bool.or_eq_true, Hit.atLeast_iff, Hit.atLeast_iff]
  exact le_total a.key b.key

/-- The hit that a name is, found or not. -/
def hitOf (typed name : String) : Hit where
  name := name
  leads := (lowered typed).isPrefixOf (lowered name)
  distance := distance (lowered typed) (lowered name)
  length := name.length

theorem matches_iff {typed name : String} : Matches typed name ↔
    (hitOf typed name).leads || (hitOf typed name).distance ≤ tolerance (lowered typed) := by
  rw [Bool.or_eq_true, decide_eq_true_eq]
  simp only [Matches, hitOf, List.isPrefixOf_iff_prefix, tolerance]
  refine or_congr_right ⟨?_, fun h => ⟨_, h, edits_distance _ _⟩⟩
  rintro ⟨n, hn, hedits⟩
  exact (distance_le_of_edits hedits).trans hn

instance (typed name : String) : Decidable (Matches typed name) := decidable_of_iff _ matches_iff.symm

theorem hit?_eq (typed name : String) : hit? (lowered typed) name =
    if Matches typed name then some (hitOf typed name) else none := by
  simp only [matches_iff]
  rfl

/-! ## The sort -/

/-- **Equal ranks keep their order**: whatever holds between each entry and the later ones holds, after
sorting, between entries of equal rank. -/
theorem pairwise_mergeSort_of_pairwise {α : Type} {le : α → α → Bool} {R : α → α → Prop} {l : List α}
    (trans : ∀ a b c, le a b = true → le b c = true → le a c = true)
    (total : ∀ a b, (le a b || le b a) = true) (h : l.Pairwise R) :
    (l.mergeSort le).Pairwise fun a b => le a b = true ∧ (le b a = true → R a b) := by
  rw [← List.mergeSort_zipIdx, List.pairwise_map]
  have hperm := List.mergeSort_perm l.zipIdx (List.zipIdxLE le)
  have hsorted :=
    List.pairwise_mergeSort (List.zipIdxLE_trans trans) (List.zipIdxLE_total total) l.zipIdx
  have hplaces : (l.zipIdx.mergeSort (List.zipIdxLE le)).Pairwise fun a b => a.2 ≠ b.2 := by
    rw [← List.pairwise_map (f := Prod.snd) (R := (· ≠ ·)), (hperm.map _).pairwise_iff Ne.symm,
      List.zipIdx_map_snd]
    exact List.nodup_range'
  refine (hsorted.and hplaces).imp_of_mem fun {a b} ha hb hab => ?_
  obtain ⟨hle, hne⟩ := hab
  rw [hperm.mem_iff, List.mem_zipIdx_iff_getElem?] at ha hb
  unfold List.zipIdxLE at hle
  split at hle
  · rename_i hfirst
    refine ⟨hfirst, fun hback => ?_⟩
    rw [if_pos hback, decide_eq_true_eq] at hle
    obtain ⟨hi, ha⟩ := List.getElem?_eq_some_iff.1 ha
    obtain ⟨hj, hb⟩ := List.getElem?_eq_some_iff.1 hb
    rw [← ha, ← hb]
    exact List.pairwise_iff_getElem.1 h _ _ hi hj (by omega)
  · cases hle

/-! ## What is found -/

/-- The matching names with their places, best first. -/
def found (names : List String) (typed : String) : List (String × Nat) :=
  (names.zipIdx.filter fun x => Matches typed x.1).mergeSort fun a b =>
    (hitOf typed a.1).atLeast (hitOf typed b.1)

section

variable {names : List String} {typed : String}

theorem search_eq_found : search names typed = (found names typed).map (·.1) := by
  have hhits : names.filterMap (hit? (lowered typed)) =
      (names.zipIdx.filter fun x => Matches typed x.1).map fun x => hitOf typed x.1 := by
    conv_lhs => rw [← List.zipIdx_map_fst 0 names]
    rw [List.filterMap_map, ← List.filterMap_eq_map, List.filterMap_filter]
    refine List.filterMap_congr fun x _ => ?_
    simp [hit?_eq]
  have hsort := List.map_mergeSort (f := fun x : String × Nat => hitOf typed x.1) (s := Hit.atLeast)
    (l := names.zipIdx.filter fun x => Matches typed x.1) fun _ _ _ _ => rfl
  rw [search, ← lowered, hhits, ← hsort, List.map_map]
  rfl

theorem mem_found {x : String × Nat} :
    x ∈ found names typed ↔ names[x.2]? = some x.1 ∧ Matches typed x.1 := by
  rw [found, List.mem_mergeSort, List.mem_filter, List.mem_zipIdx_iff_getElem?, decide_eq_true_eq]

theorem rank_lt_iff {a b : String × Nat} : rank typed a < rank typed b ↔
    (hitOf typed a.1).key < (hitOf typed b.1).key ∨
      (hitOf typed a.1).key = (hitOf typed b.1).key ∧ a.2 < b.2 := by
  simp only [rank, Hit.key, hitOf, Prod.Lex.toLex_lt_toLex, List.isPrefixOf_iff_prefix,
    EmbeddingLike.apply_eq_iff_eq, Prod.mk.injEq]
  tauto

theorem pairwise_found (names : List String) (typed : String) :
    (found names typed).Pairwise fun a b => rank typed a < rank typed b := by
  have hplaces : (names.zipIdx.filter fun x => Matches typed x.1).Pairwise fun a b => a.2 < b.2 := by
    refine List.Pairwise.filter _ ?_
    rw [← List.pairwise_map (f := Prod.snd) (R := (· < ·)), List.zipIdx_map_snd]
    exact List.pairwise_lt_range'
  have hsorted := pairwise_mergeSort_of_pairwise
    (fun a b c : String × Nat => Hit.atLeast_trans (hitOf typed a.1) (hitOf typed b.1) (hitOf typed c.1))
    (fun a b => Hit.atLeast_total (hitOf typed a.1) (hitOf typed b.1)) hplaces
  refine hsorted.imp fun {a b} hab => ?_
  simp only [Hit.atLeast_iff] at hab
  rw [rank_lt_iff]
  rcases hab.1.lt_or_eq with hlt | heq
  · exact .inl hlt
  · exact .inr ⟨heq, hab.2 heq.ge⟩

/-! ## Names that start with the typed text -/

theorem distance_of_prefix {p s : List Char} (h : p <+: s) : distance p s + p.length = s.length := by
  obtain ⟨t, rfl⟩ := h
  rw [distance_append, List.length_append, Nat.add_comm]

theorem length_le_of_rank_lt {a b : String × Nat} (ha : lowered typed <+: lowered a.1)
    (hb : lowered typed <+: lowered b.1) (h : rank typed a < rank typed b) :
    (lowered a.1).length ≤ (lowered b.1).length := by
  have hda := distance_of_prefix ha
  have hdb := distance_of_prefix hb
  simp only [rank, if_pos ha, if_pos hb, Prod.Lex.toLex_lt_toLex] at h
  omega

/-- Nothing but equal texts ranks as high as an equal one. -/
theorem lowered_eq_of_rank_le {a b : String × Nat} (hb : lowered b.1 = lowered typed)
    (h : rank typed a ≤ rank typed b) : lowered a.1 = lowered typed := by
  have hzero := distance_eq_zero_iff.2 hb.symm
  have hlead : lowered typed <+: lowered b.1 := hb ▸ List.prefix_rfl
  simp only [rank, if_pos hlead, hzero, Prod.Lex.toLex_le_toLex] at h
  exact (distance_eq_zero_iff.1 (by omega)).symm

end

/-- **A search finds each match once and in order of rank.** The answer lists the places of the matching
names, each one and no other, by rising rank; since no two places share a rank, none is there twice.
So the names that start with the typed text come in order of their length in lower case, and if some
name is the typed text, case apart, then so is the first one found. -/
theorem search_ranks_matches (names : List String) (typed : String) :
    (∃ found : List (String × Nat), search names typed = found.map (·.1) ∧
      (∀ name i, (name, i) ∈ found ↔ names[i]? = some name ∧ Matches typed name) ∧
      found.Pairwise fun a b => rank typed a < rank typed b) ∧
    ((search names typed).filter fun name => lowered typed <+: lowered name).Pairwise
      (fun a b => (lowered a).length ≤ (lowered b).length) ∧
    ((∃ name ∈ names, lowered name = lowered typed) →
      ∃ first, (search names typed).head? = some first ∧ lowered first = lowered typed) := by
  have hpairs := pairwise_found names typed
  refine ⟨⟨_, search_eq_found, fun name i => mem_found, hpairs⟩, ?_, ?_⟩
  · rw [search_eq_found, List.filter_map, List.pairwise_map]
    refine (hpairs.filter _).imp_of_mem fun {a b} ha hb hab => ?_
    have hleads := of_decide_eq_true (List.mem_filter.1 ha).2
    have hleads' := of_decide_eq_true (List.mem_filter.1 hb).2
    exact length_le_of_rank_lt hleads hleads' hab
  · rintro ⟨name, hname, heq⟩
    obtain ⟨i, hi⟩ := List.mem_iff_getElem?.1 hname
    have hmem : (name, i) ∈ found names typed := mem_found.2 ⟨hi, .inl (heq ▸ List.prefix_rfl)⟩
    rw [search_eq_found]
    cases hfound : found names typed with
    | nil => rw [hfound] at hmem; cases hmem
    | cons first rest =>
      rw [hfound] at hmem hpairs
      refine ⟨first.1, rfl, lowered_eq_of_rank_le (b := (name, i)) heq ?_⟩
      rcases List.mem_cons.1 hmem with hfirst | hrest
      · exact hfirst ▸ le_rfl
      · exact ((List.pairwise_cons.1 hpairs).1 _ hrest).le

/-- What is typed is found first, though a shorter name and one that starts with it stand before it. -/
theorem typedName_found_first :
    lowered "GetSome" = lowered "getsome" ∧
      ∃ first, (search ["getSomething", "getSme", "GetSome"] "getsome").head? = some first ∧
        lowered first = lowered "getsome" := by
  have hname : lowered "GetSome" = lowered "getsome" := by decide
  exact ⟨hname, (search_ranks_matches _ _).2.2 ⟨"GetSome", by simp, hname⟩⟩

end ScriptAtlas.NameSearch
