/-
Calls of the extraction cache that run at the same time while no file is
written. If no two calls have one key, the order of their steps makes no
difference: a call finds in the store what was there at the start, answers
what its file declares if the store does not say otherwise, and leaves under
its key what it would leave alone. So does a run of one call after another.
-/
import Mathlib.Data.List.Basic
import Mathlib.Data.String.Basic
import ScriptAtlas.Proofs.CacheRuns

namespace ScriptAtlas

/-! ## Stores in order -/

namespace Store

/-- The entries stand in the order of their keys, and no two have one key. -/
def InOrder (s : Store) : Prop := s.entries.Pairwise (·.1 < ·.1)

instance (s : Store) : Decidable s.InOrder := inferInstanceAs (Decidable (s.entries.Pairwise _))

theorem InOrder.keep {s : Store} (h : s.InOrder) (key : String) (stamp : Option FileStamp)
    (d : Declarations) : (s.keep key stamp d).InOrder := by
  rcases keep_cases key stamp d with hkeep | ⟨-, bytes, -, -, hkeep⟩
  · rwa [hkeep]
  · rw [hkeep]
    exact Ordered.pairwise_put h

theorem lookup_eq_none_of_lt {entries : List (String × Bytes)} {key : String}
    (h : ∀ e ∈ entries, key < e.1) : entries.lookup key = none := by
  rw [List.lookup_eq_none_iff]
  intro e he
  simpa using (h e he).ne

theorem eq_of_lookup_eq {entries entries' : List (String × Bytes)} (h : entries.Pairwise (·.1 < ·.1))
    (h' : entries'.Pairwise (·.1 < ·.1)) (heq : ∀ k, entries.lookup k = entries'.lookup k) :
    entries = entries' := by
  induction entries generalizing entries' with
  | nil =>
    cases entries' with
    | nil => rfl
    | cons e rest =>
      obtain ⟨k, v⟩ := e
      simpa [List.lookup_cons] using heq k
  | cons e rest ih =>
    obtain ⟨k, v⟩ := e
    cases entries' with
    | nil => simpa [List.lookup_cons] using heq k
    | cons e' rest' =>
      obtain ⟨k', v'⟩ := e'
      obtain ⟨hfirst, hrest⟩ := List.pairwise_cons.1 h
      obtain ⟨hfirst', hrest'⟩ := List.pairwise_cons.1 h'
      -- the smaller of two different first keys would be missing in the other list
      have hkey : k = k' := by
        rcases lt_trichotomy k k' with hlt | hk | hlt
        · have hrest : rest'.lookup k = none := lookup_eq_none_of_lt fun e he => lt_trans hlt (hfirst' e he)
          simpa [List.lookup_cons, beq_eq_false_iff_ne.2 hlt.ne, hrest] using heq k
        · exact hk
        · have hrest : rest.lookup k' = none := lookup_eq_none_of_lt fun e he => lt_trans hlt (hfirst e he)
          simpa [List.lookup_cons, beq_eq_false_iff_ne.2 hlt.ne, hrest] using heq k'
      subst hkey
      obtain rfl : v = v' := by simpa [List.lookup_cons] using heq k
      rw [ih hrest hrest' fun k' => ?_]
      by_cases hk : k' = k
      · subst hk
        rw [lookup_eq_none_of_lt hfirst, lookup_eq_none_of_lt hfirst']
      · simpa [List.lookup_cons, beq_eq_false_iff_ne.2 hk] using heq k'

/-- Stores in order that hold the same under every key are the same. -/
theorem InOrder.ext {s s' : Store} (h : s.InOrder) (h' : s'.InOrder) (heq : ∀ k, s.load k = s'.load k) :
    s = s' := congrArg Store.mk (eq_of_lookup_eq h h' heq)

/-! ## What a call sees and changes of a store -/

theorem stored?_congr {s s' : Store} {key : String} (h : s.load key = s'.load key)
    (stamp : Option FileStamp) : s.stored? key stamp = s'.stored? key stamp := by
  simp only [stored?, get?, h]

theorem load_keep_of_ne {s : Store} {key k : String} (h : k ≠ key) (stamp : Option FileStamp)
    (d : Declarations) : (s.keep key stamp d).load k = s.load k := by
  rcases keep_cases key stamp d with hkeep | ⟨-, bytes, -, -, hkeep⟩
  · rw [hkeep]
  · rw [hkeep, load_save, if_neg h]

theorem load_keep_congr {s s' : Store} {key : String} (h : s.load key = s'.load key)
    (stamp : Option FileStamp) (d : Declarations) :
    (s.keep key stamp d).load key = (s'.keep key stamp d).load key := by
  rcases keep_cases key stamp d with hkeep | ⟨-, bytes, -, -, hkeep⟩
  · rwa [hkeep, hkeep]
  · rw [hkeep, hkeep, load_save, load_save, if_pos rfl, if_pos rfl]

end Store

namespace FileTree

/-- What the file at a path declares, if it can be read and is a script. -/
def declared? (t : FileTree) (path : String) : Option Declarations := do
  Declarations.ofText? (← (t.readText path).toOption) path

/-- What the store has for the file at a path is what the file declares. -/
def Backs (t : FileTree) (s : Store) (path key : String) : Prop :=
  ∀ d, s.stored? key (t.stamp? path) = some d → t.declared? path = some d

variable {t : FileTree} {s s' : Store} {path key : String}

theorem extract_eq (t : FileTree) (s : Store) (path key : String) : t.extract s path key =
    s.getOrExtract key (t.stamp? path) fun _ => t.declared? path := rfl

theorem extract_of_stored {d : Declarations} (h : s.stored? key (t.stamp? path) = some d) :
    t.extract s path key = (some d, s) := by
  rw [extract, Store.getOrExtract, h]

theorem extract_of_missing (h : s.stored? key (t.stamp? path) = none) : t.extract s path key =
    (t.declared? path, ((t.declared? path).map (s.keep key (t.stamp? path))).getD s) := by
  rw [extract_eq, Store.getOrExtract, h]
  cases t.declared? path <;> rfl

/-- With a store that backs the file, a call answers what the file declares. -/
theorem extract_fst (h : t.Backs s path key) : (t.extract s path key).1 = t.declared? path := by
  cases hs : s.stored? key (t.stamp? path) with
  | some d => rw [extract_of_stored hs, h d hs]
  | none => rw [extract_of_missing hs]

/-- A call changes nothing under other keys. -/
theorem load_extract_of_ne {k : String} (h : k ≠ key) : (t.extract s path key).2.load k = s.load k := by
  cases hs : s.stored? key (t.stamp? path) with
  | some d => rw [extract_of_stored hs]
  | none =>
    rw [extract_of_missing hs]
    cases t.declared? path with
    | none => rfl
    | some d => exact Store.load_keep_of_ne h _ d

/-- What a call leaves under its key depends on what was there only. -/
theorem load_extract_congr (h : s.load key = s'.load key) :
    (t.extract s path key).2.load key = (t.extract s' path key).2.load key := by
  cases hs : s.stored? key (t.stamp? path) with
  | some d =>
    rw [extract_of_stored hs, extract_of_stored ((Store.stored?_congr h _).symm.trans hs)]
    exact h
  | none =>
    rw [extract_of_missing hs, extract_of_missing ((Store.stored?_congr h _).symm.trans hs)]
    cases t.declared? path with
    | none => exact h
    | some d => exact Store.load_keep_congr h _ d

theorem inOrder_extract (h : s.InOrder) : (t.extract s path key).2.InOrder := by
  cases hs : s.stored? key (t.stamp? path) with
  | some d =>
    rw [extract_of_stored hs]
    exact h
  | none =>
    rw [extract_of_missing hs]
    cases t.declared? path with
    | none => exact h
    | some d => exact h.keep _ _ d

theorem Backs.congr (h : t.Backs s path key) (heq : s.load key = s'.load key) : t.Backs s' path key :=
  fun d hd => h d ((Store.stored?_congr heq _).trans hd)

end FileTree

/-! ## One file after another -/

namespace Startup

/-- The store after the files at the paths were extracted one after another. -/
def storeAfter (t : FileTree) (key : String → String) (s : Store) (paths : List String) : Store :=
  paths.foldl (fun s path => (t.extract s path (key path)).2) s

/-- The second store has under the key of each path what the call for the path alone would leave of
the first store, and all else is as in the first. -/
structure Settled (t : FileTree) (key : String → String) (paths : List String) (s s' : Store) : Prop where
  asked : ∀ path ∈ paths, s'.load (key path) = (t.extract s path (key path)).2.load (key path)
  other : ∀ k, (∀ path ∈ paths, key path ≠ k) → s'.load k = s.load k

section

variable {t : FileTree} {key : String → String} {paths : List String} {s s' s'' : Store}

theorem Settled.load_eq (h : Settled t key paths s s') (h' : Settled t key paths s s'') (k : String) :
    s'.load k = s''.load k := by
  by_cases hk : ∃ path ∈ paths, key path = k
  · obtain ⟨path, hpath, rfl⟩ := hk
    rw [h.asked path hpath, h'.asked path hpath]
  · have hother : ∀ path ∈ paths, key path ≠ k := fun path hpath he => hk ⟨path, hpath, he⟩
    rw [h.other k hother, h'.other k hother]

theorem settled_storeAfter (hkeys : (paths.map key).Nodup) (s : Store) :
    Settled t key paths s (storeAfter t key s paths) := by
  induction paths generalizing s with
  | nil => exact ⟨by simp, fun _ _ => rfl⟩
  | cons p paths ih =>
    obtain ⟨hp, hrest⟩ := List.nodup_cons.1 hkeys
    have hne : ∀ q ∈ paths, key q ≠ key p := fun q hq he => hp (he ▸ List.mem_map_of_mem hq)
    have hafter := ih hrest (t.extract s p (key p)).2
    constructor
    · intro q hq
      rcases List.mem_cons.1 hq with rfl | hq
      · exact hafter.other (key q) hne
      · refine (hafter.asked q hq).trans (FileTree.load_extract_congr ?_)
        exact FileTree.load_extract_of_ne (hne q hq)
    · intro k hk
      refine (hafter.other k fun q hq => hk q (by simp [hq])).trans (FileTree.load_extract_of_ne ?_)
      exact (hk p (by simp)).symm

/-- Extracting files one after another gives what each of them declares. -/
theorem foldl_extract {β : Type} (f : String → Declarations → β) (hkeys : (paths.map key).Nodup)
    (hbacks : ∀ path ∈ paths, t.Backs s path (key path)) (found : List β) :
    paths.foldl (fun (found, s) path =>
        match t.extract s path (key path) with
        | (some d, s) => (found ++ [f path d], s)
        | (none, s) => (found, s)) (found, s) =
      (found ++ paths.filterMap fun path => (t.declared? path).map (f path), storeAfter t key s paths) := by
  induction paths generalizing s found with
  | nil => simp [storeAfter]
  | cons p paths ih =>
    obtain ⟨hp, hrest⟩ := List.nodup_cons.1 hkeys
    have hanswer := FileTree.extract_fst (hbacks p (by simp))
    have hnext : ∀ q ∈ paths, t.Backs (t.extract s p (key p)).2 q (key q) := by
      intro q hq
      have hne : key q ≠ key p := fun he => hp (he ▸ List.mem_map_of_mem hq)
      exact (hbacks q (by simp [hq])).congr (FileTree.load_extract_of_ne hne).symm
    have hstore : storeAfter t key s (p :: paths) = storeAfter t key (t.extract s p (key p)).2 paths := rfl
    simp only [List.foldl_cons, List.filterMap_cons, ← hanswer, hstore]
    generalize t.extract s p (key p) = answered at hnext
    obtain ⟨_ | d, s₁⟩ := answered
    · exact ih hrest hnext found
    · simpa using ih hrest hnext (found ++ [f p d])

theorem inOrder_storeAfter (h : s.InOrder) : (storeAfter t key s paths).InOrder := by
  induction paths generalizing s with
  | nil => exact h
  | cons p paths ih => exact ih (FileTree.inOrder_extract h)

end

/-! ## Calls at the same time, while no file is written -/

section

open Cache

variable (sc : Scene) (t : FileTree) (s : Store)

/-- What is known of a call for the path that started from the store `s`: its stamp is that of the
file, what it found in the store was there at the start, and what it read is what the file declares. -/
def CallSteady (path : String) : Call → Prop
  | .ready => True
  | .looked _ stamp => stamp = t.stamp? path
  | .missed _ stamp => stamp = t.stamp? path ∧ s.stored? (sc.key path) stamp = none
  | .extracted _ stamp _ d =>
    stamp = t.stamp? path ∧ s.stored? (sc.key path) stamp = none ∧ t.declared? path = some d
  | .hit _ _ d => s.stored? (sc.key path) (t.stamp? path) = some d
  | .computed _ answer => s.stored? (sc.key path) (t.stamp? path) = none ∧ answer = t.declared? path

/-- **The invariant of every order of steps**: each call is steady, a call that has saved has left
what it would leave alone, and under a key that no call has saved to all is as at the start. -/
structure Steady (w : World) : Prop where
  calls : ∀ i, CallSteady sc t s (sc.path i) (w.calls i)
  saved : ∀ i, (w.calls i).hasSaved = true → w.store.load (sc.key (sc.path i)) =
    (t.extract s (sc.path i) (sc.key (sc.path i))).2.load (sc.key (sc.path i))
  unsaved : ∀ k, (∀ i, sc.key (sc.path i) = k → (w.calls i).hasSaved = false) → w.store.load k = s.load k

variable {sc t s} {w : World} {i : Nat}

theorem CallSteady.not_hasSaved {path : String} {c : Call} (h : CallSteady sc t s path c)
    (hnone : t.declared? path = none) : c.hasSaved = false := by
  cases c with
  | computed read answer =>
    obtain ⟨-, rfl⟩ := h
    rw [hnone]
    rfl
  | _ => rfl

/-- One call goes on and saves nothing. -/
theorem Steady.set (h : Steady sc t s w) {c : Call} (hc : CallSteady sc t s (sc.path i) c)
    (hold : (w.calls i).hasSaved = false) (hnew : c.hasSaved = false) : Steady sc t s (w.set i c) := by
  have hsame : ∀ j, ((w.set i c).calls j).hasSaved = (w.calls j).hasSaved :=
    World.forall_set (P := fun j c => c.hasSaved = (w.calls j).hasSaved) (fun _ => rfl)
      (hnew.trans hold.symm)
  refine ⟨World.forall_set (P := fun j => CallSteady sc t s (sc.path j)) h.calls hc,
    fun j hj => h.saved j (hsame j ▸ hj), fun k hk => h.unsaved k fun j hj => ?_⟩
  rw [← hsame j]
  exact hk j hj

section

variable (htree : ∀ n, sc.tree n = t)
  (hown : ∀ i j, sc.path i = sc.path j → i = j ∨ t.declared? (sc.path i) = none)

include hown

/-- A call that has not saved finds under its key what was there at the start. -/
theorem Steady.load_of_not_hasSaved (h : Steady sc t s w) (hi : (w.calls i).hasSaved = false) :
    w.store.load (sc.key (sc.path i)) = s.load (sc.key (sc.path i)) := by
  refine h.unsaved _ fun j hj => ?_
  have hpath := sc.key_inj _ _ hj
  rcases hown j i hpath with rfl | hnone
  · exact hi
  · exact (h.calls j).not_hasSaved hnone

/-- One call saves what it read. No other call that has saved or will save has its key, since it would
be for the same file. -/
theorem Steady.save (h : Steady sc t s w) (hold : (w.calls i).hasSaved = false)
    (hmissing : s.stored? (sc.key (sc.path i)) (t.stamp? (sc.path i)) = none) {d : Declarations}
    (hd : t.declared? (sc.path i) = some d) (read : Nat) :
    Steady sc t s { w.set i (.computed read (some d)) with
      store := w.store.keep (sc.key (sc.path i)) (t.stamp? (sc.path i)) d } := by
  have hkey : ∀ j, j ≠ i → sc.key (sc.path j) ≠ sc.key (sc.path i) := by
    intro j hj he
    rcases hown i j (sc.key_inj _ _ he).symm with rfl | hnone
    · exact hj rfl
    · rw [hd] at hnone
      cases hnone
  refine ⟨World.forall_set (P := fun j => CallSteady sc t s (sc.path j)) h.calls ⟨hmissing, hd.symm⟩,
    fun j hj => ?_, fun k hk => ?_⟩
  · by_cases hji : j = i
    · subst hji
      rw [FileTree.extract_of_missing hmissing, hd]
      exact Store.load_keep_congr (h.load_of_not_hasSaved hown hold) _ d
    · rw [Store.load_keep_of_ne (hkey j hji)]
      exact h.saved j (by simpa [World.set, hji] using hj)
  · have hne : sc.key (sc.path i) ≠ k := by
      intro he
      simpa [World.set, Call.hasSaved] using hk i he
    rw [Store.load_keep_of_ne hne.symm]
    refine h.unsaved k fun j hj => ?_
    have hji : j ≠ i := by
      rintro rfl
      exact hne hj
    simpa [World.set, hji] using hk j hj

include htree

theorem Steady.acts {w' : World} (h : Steady sc t s w) (hact : sc.Acts w i w') : Steady sc t s w' := by
  have hcall := h.calls i
  have hextract : sc.extract w.now (sc.path i) = t.declared? (sc.path i) := by
    rw [Scene.extract, htree, FileTree.declared?]
  -- what the store has now for a call that has not saved it had at the start
  have hstored (hold : (w.calls i).hasSaved = false) :=
    Store.stored?_congr (h.load_of_not_hasSaved hown hold)
  cases hact with
  | look hc =>
    have hstamp : sc.stamp? w.now (sc.path i) = t.stamp? (sc.path i) := by rw [Scene.stamp?, htree]
    exact h.set hstamp (by simp [hc, Call.hasSaved]) rfl
  | hit hc hd =>
    have hold : (w.calls i).hasSaved = false := by simp [hc, Call.hasSaved]
    rw [hc] at hcall
    obtain rfl := hcall
    exact h.set ((hstored hold _).symm.trans hd) hold rfl
  | miss hc hd =>
    have hold : (w.calls i).hasSaved = false := by simp [hc, Call.hasSaved]
    rw [hc] at hcall
    exact h.set ⟨hcall, (hstored hold _).symm.trans hd⟩ hold rfl
  | read hc hd =>
    have hold : (w.calls i).hasSaved = false := by simp [hc, Call.hasSaved]
    rw [hc] at hcall
    exact h.set ⟨hcall.1, hcall.2, hextract.symm.trans hd⟩ hold rfl
  | fail hc hd =>
    have hold : (w.calls i).hasSaved = false := by simp [hc, Call.hasSaved]
    rw [hc] at hcall
    obtain ⟨rfl, hmissing⟩ := hcall
    exact h.set ⟨hmissing, hd.symm.trans hextract⟩ hold rfl
  | save hc =>
    have hold : (w.calls i).hasSaved = false := by simp [hc, Call.hasSaved]
    rw [hc] at hcall
    obtain ⟨rfl, hmissing, hd⟩ := hcall
    exact h.save hown hold hmissing hd _
  | stay hc => exact h

theorem Steady.step (h : Steady sc t s w) (e : Event) : Steady sc t s (sc.step w e) := by
  cases e with
  | write => exact ⟨h.calls, h.saved, h.unsaved⟩
  | act i => exact h.acts htree hown (sc.acts_act w i)

theorem steady_run (es : List Event) : Steady sc t s (es.foldl sc.step { store := s }) := by
  have hfold {w : World} (h : Steady sc t s w) : Steady sc t s (es.foldl sc.step w) := by
    induction es generalizing w with
    | nil => exact h
    | cons e es ih => exact ih (h.step htree hown e)
  exact hfold ⟨fun _ => trivial, fun _ h => (by cases h), fun _ _ => rfl⟩

end

/-- A call that has come to its end answers what its file declares, and has left under its key what
it would leave alone. -/
theorem Steady.of_answered (h : Steady sc t s w) (hbacks : t.Backs s (sc.path i) (sc.key (sc.path i)))
    (hown : ∀ i j, sc.path i = sc.path j → i = j ∨ t.declared? (sc.path i) = none)
    {answer : Option Declarations} (ha : (w.calls i).answer? = some answer) :
    answer = t.declared? (sc.path i) ∧ w.store.load (sc.key (sc.path i)) =
      (t.extract s (sc.path i) (sc.key (sc.path i))).2.load (sc.key (sc.path i)) := by
  have hcall := h.calls i
  cases hc : w.calls i with
  | hit stat load d =>
    rw [hc] at hcall ha
    have hload := h.load_of_not_hasSaved hown (i := i) (by simp [hc, Call.hasSaved])
    obtain rfl : some d = answer := Option.some.inj ha
    refine ⟨(hbacks d hcall).symm, ?_⟩
    rw [hload, FileTree.extract_of_stored hcall]
  | computed read a =>
    rw [hc] at hcall ha
    obtain rfl : a = answer := Option.some.inj ha
    refine ⟨hcall.2, ?_⟩
    cases hd : t.declared? (sc.path i) with
    | some d => exact h.saved i (by simp [hc, hcall.2, hd, Call.hasSaved])
    | none =>
      have hload := h.load_of_not_hasSaved hown (i := i) (by simp [hc, hcall.2, hd, Call.hasSaved])
      rw [hload, FileTree.extract_of_missing hcall.1, hd]
      rfl
  | _ =>
    rw [hc] at ha
    cases ha

theorem inOrder_acts {w' : World} (h : w.store.InOrder) (hact : sc.Acts w i w') : w'.store.InOrder := by
  cases hact with
  | save hc => exact h.keep _ _ _
  | _ => exact h

theorem inOrder_run (h : w.store.InOrder) (es : List Event) : (es.foldl sc.step w).store.InOrder := by
  induction es generalizing w with
  | nil => exact h
  | cons e es ih =>
    refine ih ?_
    cases e with
    | write => exact h
    | act i => exact inOrder_acts h (sc.acts_act w i)

end

end Startup

end ScriptAtlas
