/-
Calls of the extraction cache that run at the same time. A call looks at the
stamp of its file, then into the store, then reads the file, then stores what
it found, and between any two of these steps other calls may take theirs and
files may be written. `Scene` fixes the files over time and the calls, `run`
takes the steps in a given order. Every order is covered: what a call answers
from the store was read from its file at a moment between its first two steps.
-/
import ScriptAtlas.Proofs.CodecRoundTrip
import ScriptAtlas.Proofs.SortedLists
import ScriptAtlas.Units

namespace ScriptAtlas

/-! ## The store -/

namespace Store

theorem load_save (s : Store) (key key' : String) (bytes : Bytes) :
    (s.save key bytes).load key' = if key' = key then some bytes else s.load key' :=
  Ordered.lookup_put

theorem decode?_of_encode? {r : ExtractionRecord} {bytes : Bytes} (h : r.encode? = some bytes) :
    ExtractionRecord.decode? bytes = some r := by
  have hread := Codec.faithful_record.read_write [] h
  rw [List.append_nil] at hread
  rw [ExtractionRecord.decode?, hread]
  rfl

/-- Keeping an extraction changes no store, or saves its record in every store. -/
theorem keep_cases (key : String) (stamp : Option FileStamp) (d : Declarations) :
    (∀ s : Store, s.keep key stamp d = s) ∨
      ∃ st bytes, stamp = some st ∧
        ExtractionRecord.encode? ⟨ExtractionRecord.currentFormat, st, d⟩ = some bytes ∧
        ∀ s : Store, s.keep key stamp d = s.save key bytes := by
  cases stamp with
  | none => exact .inl fun _ => rfl
  | some st =>
    cases hb : ExtractionRecord.encode? ⟨ExtractionRecord.currentFormat, st, d⟩ with
    | none => exact .inl fun s => by rw [keep, set, hb]
    | some bytes => exact .inr ⟨st, bytes, rfl, hb, fun s => by rw [keep, set, hb]⟩

/-- What is found after an extraction was kept was there before, or is that extraction. -/
theorem of_get?_keep {s : Store} {key key' : String} {stamp : Option FileStamp} {stamp' : FileStamp}
    {d d' : Declarations} (h : (s.keep key stamp d).get? key' stamp' = some d') :
    s.get? key' stamp' = some d' ∨ key' = key ∧ stamp = some stamp' ∧ d' = d := by
  rcases keep_cases key stamp d with hkeep | ⟨st, bytes, rfl, hb, hkeep⟩
  · exact .inl (hkeep s ▸ h)
  · rw [hkeep] at h
    simp only [get?, load_save] at h ⊢
    split at h
    · rename_i hkey
      simp only [Option.bind_eq_bind, Option.bind_some, decode?_of_encode? hb,
        ExtractionRecord.declarationsFor?, Option.ite_none_right_eq_some, Option.some.injEq,
        true_and] at h
      exact .inr ⟨hkey, congrArg some h.1, h.2.symm⟩
    · exact .inl h

end Store

namespace Cache

/-! ## Calls and files over time -/

/-- How far a call has come. The numbers are the moments at which it took its steps. -/
inductive Call where
  | ready
  /-- The stamp of the file is known. -/
  | looked (stat : Nat) (stamp : Option FileStamp)
  /-- The store has nothing for the stamp. -/
  | missed (stat : Nat) (stamp : Option FileStamp)
  /-- The file was read. -/
  | extracted (stat : Nat) (stamp : Option FileStamp) (read : Nat) (d : Declarations)
  /-- Answered from the store. -/
  | hit (stat load : Nat) (d : Declarations)
  /-- Answered from the file. -/
  | computed (read : Nat) (answer : Option Declarations)
  deriving DecidableEq, Repr

/-- What the call has answered. -/
def Call.answer? : Call → Option (Option Declarations)
  | hit _ _ d => some (some d)
  | computed _ answer => some answer
  | _ => none

/-- The number of steps that the call may still take. -/
def Call.left : Call → Nat
  | ready => 4
  | looked .. => 3
  | missed .. => 2
  | extracted .. => 1
  | hit .. | computed .. => 0

/-- The call has stored what it read. -/
def Call.hasSaved : Call → Bool
  | computed _ (some _) => true
  | _ => false

/-- The moment, the store, and how far each call has come. -/
structure World where
  now : Nat := 0
  store : Store := {}
  calls : Nat → Call := fun _ => .ready

/-- The world with one call further on. -/
def World.set (w : World) (i : Nat) (c : Call) : World :=
  { w with calls := fun j => if j = i then c else w.calls j }

/-- What holds of all calls still does when one goes on, if it holds of that one. -/
theorem World.forall_set {P : Nat → Call → Prop} {w : World} {i : Nat} {c : Call}
    (h : ∀ j, P j (w.calls j)) (hc : P i c) (j : Nat) : P j ((w.set i c).calls j) := by
  by_cases hj : j = i
  · subst hj
    simpa [World.set] using hc
  · simpa [World.set, hj] using h j

/-- Files that are written over time, and calls that ask for them. A file that was written has a
stamp that it never had before, and every path has its own key. -/
structure Scene where
  tree : Nat → FileTree
  path : Nat → String
  key : String → String
  fresh : ∀ n p s, (tree (n + 1)).stamp? p = some s →
    (tree (n + 1)).fileAt p = (tree n).fileAt p ∨ ∀ m ≤ n, (tree m).stamp? p ≠ some s
  key_inj : ∀ p q, key p = key q → p = q

/-- Files are written, or a call takes its next step. -/
inductive Event where
  | write
  | act (i : Nat)
  deriving DecidableEq, Repr

namespace Scene

variable (sc : Scene)

/-- The stamp of the file at a moment. -/
def stamp? (n : Nat) (p : String) : Option FileStamp := (sc.tree n).stamp? p

/-- What the file declares at a moment, if it can be read and is a script. -/
def extract (n : Nat) (p : String) : Option Declarations := do
  Declarations.ofText? (← ((sc.tree n).readText p).toOption) p

/-- The call takes its next step. -/
def act (w : World) (i : Nat) : World :=
  match w.calls i with
  | .ready => w.set i (.looked w.now (sc.stamp? w.now (sc.path i)))
  | .looked stat stamp =>
    match w.store.stored? (sc.key (sc.path i)) stamp with
    | some d => w.set i (.hit stat w.now d)
    | none => w.set i (.missed stat stamp)
  | .missed stat stamp =>
    match sc.extract w.now (sc.path i) with
    | some d => w.set i (.extracted stat stamp w.now d)
    | none => w.set i (.computed w.now none)
  | .extracted _ stamp read d =>
    { w.set i (.computed read (some d)) with store := w.store.keep (sc.key (sc.path i)) stamp d }
  | .hit .. | .computed .. => w

/-- What a call can do next, and the world that it leaves. -/
inductive Acts (w : World) (i : Nat) : World → Prop
  | look (hc : w.calls i = .ready) : Acts w i (w.set i (.looked w.now (sc.stamp? w.now (sc.path i))))
  | hit {stat : Nat} {stamp : Option FileStamp} {d : Declarations} (hc : w.calls i = .looked stat stamp)
      (hd : w.store.stored? (sc.key (sc.path i)) stamp = some d) : Acts w i (w.set i (.hit stat w.now d))
  | miss {stat : Nat} {stamp : Option FileStamp} (hc : w.calls i = .looked stat stamp)
      (hd : w.store.stored? (sc.key (sc.path i)) stamp = none) : Acts w i (w.set i (.missed stat stamp))
  | read {stat : Nat} {stamp : Option FileStamp} {d : Declarations} (hc : w.calls i = .missed stat stamp)
      (hd : sc.extract w.now (sc.path i) = some d) : Acts w i (w.set i (.extracted stat stamp w.now d))
  | fail {stat : Nat} {stamp : Option FileStamp} (hc : w.calls i = .missed stat stamp)
      (hd : sc.extract w.now (sc.path i) = none) : Acts w i (w.set i (.computed w.now none))
  | save {stat read : Nat} {stamp : Option FileStamp} {d : Declarations}
      (hc : w.calls i = .extracted stat stamp read d) :
      Acts w i { w.set i (.computed read (some d)) with
        store := w.store.keep (sc.key (sc.path i)) stamp d }
  | stay (hc : (w.calls i).left = 0) : Acts w i w

theorem acts_act (w : World) (i : Nat) : sc.Acts w i (sc.act w i) := by
  unfold act
  split
  · exact .look ‹_›
  · split
    · exact .hit ‹_› ‹_›
    · exact .miss ‹_› ‹_›
  · split
    · exact .read ‹_› ‹_›
    · exact .fail ‹_› ‹_›
  · exact .save ‹_›
  · exact .stay (by simp [Call.left, *])
  · exact .stay (by simp [Call.left, *])

/-- What an event makes of the world. -/
def step (w : World) : Event → World
  | .write => { w with now := w.now + 1 }
  | .act i => sc.act w i

/-- The world after events, from an empty store. -/
def run (es : List Event) : World := es.foldl sc.step {}

/-! ## Files keep what they hold while they keep their stamp -/

variable {sc} {p : String} {s : FileStamp} {d : Declarations}

theorem stamp?_congr {m n : Nat} (h : (sc.tree m).fileAt p = (sc.tree n).fileAt p) :
    sc.stamp? m p = sc.stamp? n p := by
  rw [stamp?, stamp?, FileTree.stamp?, FileTree.stamp?, h]

theorem extract_congr {m n : Nat} (h : (sc.tree m).fileAt p = (sc.tree n).fileAt p) :
    sc.extract m p = sc.extract n p := by
  rw [extract, extract, FileTree.readText, FileTree.readText, h]

/-- Between two moments at which a file has the same stamp it was not written. -/
theorem fileAt_eq {a b m : Nat} (ha : sc.stamp? a p = some s) (hb : sc.stamp? b p = some s)
    (ham : a ≤ m) (hmb : m ≤ b) : (sc.tree m).fileAt p = (sc.tree b).fileAt p := by
  induction b with
  | zero => rw [Nat.le_zero.1 hmb]
  | succ b ih =>
    rcases Nat.lt_or_eq_of_le hmb with hlt | rfl
    · -- the stamp is not new at `b + 1`, so the file is the one before
      have hfile : (sc.tree (b + 1)).fileAt p = (sc.tree b).fileAt p := by
        rcases sc.fresh b p s hb with h | h
        · exact h
        · exact absurd ha (h a (by omega))
      rw [hfile]
      exact ih ((stamp?_congr hfile).symm.trans hb) (by omega)
    · rfl

/-! ## The invariant -/

variable (sc) in
/-- The declarations were read from the file by the moment, when it had the stamp or later. -/
def Backed (now : Nat) (p : String) (s : FileStamp) (d : Declarations) : Prop :=
  ∃ stat read, stat ≤ read ∧ read ≤ now ∧ sc.stamp? stat p = some s ∧ sc.extract read p = some d

theorem Backed.mono {m n : Nat} (h : sc.Backed m p s d) (hmn : m ≤ n) : sc.Backed n p s d := by
  obtain ⟨stat, read, h₁, h₂, h⟩ := h
  exact ⟨stat, read, h₁, Nat.le_trans h₂ hmn, h⟩

/-- Declarations that were read at the stamp or later were read at a moment since any moment that
has the stamp: if they are older, the file is still the same. -/
theorem Backed.since {t n : Nat} (h : sc.Backed n p s d) (ht : sc.stamp? t p = some s) (htn : t ≤ n) :
    ∃ m, t ≤ m ∧ m ≤ n ∧ sc.extract m p = some d := by
  obtain ⟨stat, read, hsr, hrn, hstamp, hread⟩ := h
  rcases Nat.lt_or_ge read t with hlt | hge
  · have hfile := fileAt_eq hstamp ht hsr (Nat.le_of_lt hlt)
    exact ⟨t, Nat.le_refl t, htn, (extract_congr hfile).symm.trans hread⟩
  · exact ⟨read, hge, hrn, hread⟩

variable (sc) in
/-- What is known of a call for the path: its stamp was that of the file at its first step, and what
it read or found is backed. -/
def CallSound (now : Nat) (p : String) : Call → Prop
  | .ready => True
  | .looked stat stamp | .missed stat stamp => stat ≤ now ∧ stamp = sc.stamp? stat p
  | .extracted stat stamp read d =>
    stat ≤ read ∧ read ≤ now ∧ stamp = sc.stamp? stat p ∧ sc.extract read p = some d
  | .hit stat load d => stat ≤ load ∧ ∃ s, sc.stamp? stat p = some s ∧ sc.Backed load p s d
  | .computed read answer => answer = sc.extract read p

variable (sc) in
/-- **The invariant of every run**: each entry of the store is backed, and each call is sound. -/
structure Sound (w : World) : Prop where
  store : ∀ p s d, w.store.get? (sc.key p) s = some d → sc.Backed w.now p s d
  calls : ∀ i, sc.CallSound w.now (sc.path i) (w.calls i)

theorem CallSound.mono {m n : Nat} {c : Call} (h : sc.CallSound m p c) (hmn : m ≤ n) :
    sc.CallSound n p c := by
  cases c with
  | ready => trivial
  | looked => exact ⟨Nat.le_trans h.1 hmn, h.2⟩
  | missed => exact ⟨Nat.le_trans h.1 hmn, h.2⟩
  | extracted => exact ⟨h.1, Nat.le_trans h.2.1 hmn, h.2.2⟩
  | hit => exact h
  | computed => exact h

variable {w : World} {i : Nat}

theorem Sound.set (h : sc.Sound w) {c : Call} (hc : sc.CallSound w.now (sc.path i) c) :
    sc.Sound (w.set i c) :=
  ⟨h.store, World.forall_set (P := fun j => sc.CallSound w.now (sc.path j)) h.calls hc⟩

theorem Sound.acts {w' : World} (h : sc.Sound w) (hact : sc.Acts w i w') : sc.Sound w' := by
  have hcall := h.calls i
  cases hact with
  | look hc => exact h.set ⟨Nat.le_refl _, rfl⟩
  | @hit stat stamp d hc hd =>
    rw [hc] at hcall
    -- an entry that was found belongs to the stamp of the call's first step
    cases stamp with
    | none => cases hd
    | some s => exact h.set ⟨hcall.1, s, hcall.2.symm, h.store _ _ _ hd⟩
  | miss hc hd =>
    rw [hc] at hcall
    exact h.set hcall
  | read hc hd =>
    rw [hc] at hcall
    exact h.set ⟨hcall.1, Nat.le_refl _, hcall.2, hd⟩
  | fail hc hd => exact h.set hd.symm
  | @save stat read stamp d hc =>
    rw [hc] at hcall
    obtain ⟨hsr, hrn, hstamp, hread⟩ := hcall
    have hset := h.set (i := i) (c := .computed read (some d)) hread.symm
    refine ⟨fun p s d' hd' => ?_, hset.calls⟩
    rcases Store.of_get?_keep hd' with hold | ⟨hkey, hs, rfl⟩
    · exact h.store _ _ _ hold
    · rw [sc.key_inj _ _ hkey]
      exact ⟨stat, read, hsr, hrn, hstamp.symm.trans hs, hread⟩
  | stay hc => exact h

theorem Sound.step (h : sc.Sound w) (e : Event) : sc.Sound (sc.step w e) := by
  cases e with
  | write =>
    have hle : w.now ≤ w.now + 1 := Nat.le_succ _
    exact ⟨fun p s d hd => (h.store p s d hd).mono hle, fun i => (h.calls i).mono hle⟩
  | act i => exact h.acts (sc.acts_act w i)

theorem sound_run (es : List Event) : sc.Sound (sc.run es) := by
  have hfold {w : World} (h : sc.Sound w) : sc.Sound (es.foldl sc.step w) := by
    induction es generalizing w with
    | nil => exact h
    | cons e es ih => exact ih (h.step e)
  exact hfold ⟨nofun, fun _ => trivial⟩

/-! ## Calls come to an end -/

theorem Acts.left_le {w' : World} (h : sc.Acts w i w') : (w'.calls i).left ≤ (w.calls i).left - 1 := by
  cases h with
  | stay hc => simp [hc]
  | _ => simp [World.set, Call.left, *]

theorem Acts.calls_of_ne {w' : World} {j : Nat} (h : sc.Acts w i w') (hj : j ≠ i) :
    w'.calls j = w.calls j := by
  cases h <;> simp [World.set, hj]

theorem left_foldl (es : List Event) :
    ((es.foldl sc.step w).calls i).left ≤ (w.calls i).left - es.count (.act i) := by
  induction es generalizing w with
  | nil => simp
  | cons e es ih =>
    have hstep : ((sc.step w e).calls i).left ≤ (w.calls i).left - [e].count (.act i) := by
      cases e with
      | write => simp [step]
      | act j =>
        by_cases hj : j = i
        · subst hj
          simpa [step] using (sc.acts_act w j).left_le
        · have hcalls : (sc.act w j).calls i = w.calls i := (sc.acts_act w j).calls_of_ne (Ne.symm hj)
          simp [step, hcalls, hj]
    have hrest := ih (w := sc.step w e)
    have hcount : (e :: es).count (.act i) = [e].count (.act i) + es.count (.act i) := by
      rw [← List.count_append, List.singleton_append]
    rw [List.foldl_cons, hcount]
    omega

theorem answer?_of_left {c : Call} (h : c.left = 0) : ∃ a, c.answer? = some a := by
  cases c with
  | hit _ _ d => exact ⟨some d, rfl⟩
  | computed _ a => exact ⟨a, rfl⟩
  | _ => cases h

/-! ## Calls that store nothing -/

/-- The worlds differ at most in how far the call has come. -/
structure SameBut (i : Nat) (w w' : World) : Prop where
  now : w.now = w'.now
  store : w.store = w'.store
  calls : ∀ j ≠ i, w.calls j = w'.calls j

theorem SameBut.set {w' : World} (h : SameBut i w w') (j : Nat) (c : Call) :
    SameBut i (w.set j c) (w'.set j c) := by
  refine ⟨h.now, h.store, fun k hk => ?_⟩
  simp only [World.set, h.calls k hk]

theorem SameBut.set_left {w' : World} (h : SameBut i w w') (c : Call) : SameBut i (w.set i c) w' := by
  refine ⟨h.now, h.store, fun k hk => ?_⟩
  simp only [World.set, if_neg hk, h.calls k hk]

/-- Other calls do not see how far the call has come. -/
theorem SameBut.act_other {w' : World} (h : SameBut i w w') {j : Nat} (hj : j ≠ i) :
    SameBut i (sc.act w j) (sc.act w' j) := by
  unfold act
  rw [h.calls j hj, h.now, h.store]
  split
  · exact h.set j _
  · split <;> exact h.set j _
  · split <;> exact h.set j _
  · exact ⟨h.now, rfl, (h.set j _).calls⟩
  · exact h
  · exact h

/-- Only a call that stores what it read changes the store. -/
theorem SameBut.acts_self {w' w'' : World} (h : SameBut i w w') (hact : sc.Acts w i w'')
    (hs : (w''.calls i).hasSaved = false) : SameBut i w'' w' := by
  cases hact with
  | save hc => simp [World.set, Call.hasSaved] at hs
  | stay hc => exact h
  | _ => exact h.set_left _

theorem hasSaved_step (h : (w.calls i).hasSaved = true) (e : Event) :
    ((sc.step w e).calls i).hasSaved = true := by
  cases e with
  | write => exact h
  | act j =>
    rw [step]
    by_cases hj : i = j
    · subst hj
      -- a call that has saved is at its end
      cases hc : w.calls i with
      | computed read answer => simpa [act, hc] using h
      | _ => simp [hc, Call.hasSaved] at h
    · rwa [(sc.acts_act w j).calls_of_ne hj]

theorem hasSaved_foldl (h : (w.calls i).hasSaved = true) (es : List Event) :
    ((es.foldl sc.step w).calls i).hasSaved = true := by
  induction es generalizing w with
  | nil => exact h
  | cons e es ih => exact ih (hasSaved_step h e)

/-- A call that has stored nothing might as well not have been made. -/
theorem sameBut_foldl {w' : World} (h : SameBut i w w') (es : List Event)
    (hs : ((es.foldl sc.step w).calls i).hasSaved = false) :
    SameBut i (es.foldl sc.step w) ((es.filter (· ≠ .act i)).foldl sc.step w') := by
  induction es generalizing w w' with
  | nil => exact h
  | cons e es ih =>
    have hfirst : ((sc.step w e).calls i).hasSaved = false := by
      cases hb : ((sc.step w e).calls i).hasSaved with
      | false => rfl
      | true => rw [← hs, List.foldl_cons, hasSaved_foldl hb es]
    rw [List.foldl_cons] at hs ⊢
    cases e with
    | write =>
      rw [List.filter_cons_of_pos (by simp)]
      exact ih ⟨congrArg (· + 1) h.now, h.store, h.calls⟩ hs
    | act j =>
      by_cases hj : j = i
      · subst hj
        rw [List.filter_cons_of_neg (by simp)]
        exact ih (h.acts_self (sc.acts_act w j) hfirst) hs
      · rw [List.filter_cons_of_pos (by simpa using hj)]
        exact ih (h.act_other hj) hs

/-! ## A call on its own -/

/-- The steps of a call with nothing between them are what extracting the file through the cache
does. -/
theorem act_four (hi : w.calls i = .ready) :
    let w' := [Event.act i, .act i, .act i, .act i].foldl sc.step w
    let found := (sc.tree w.now).extract w.store (sc.path i) (sc.key (sc.path i))
    (w'.calls i).answer? = some found.1 ∧ w'.store = found.2 := by
  intro w' found
  have hfound : found = w.store.getOrExtract (sc.key (sc.path i)) (sc.stamp? w.now (sc.path i))
      fun _ => sc.extract w.now (sc.path i) := rfl
  cases hs : w.store.stored? (sc.key (sc.path i)) (sc.stamp? w.now (sc.path i)) with
  | some d => simp [w', hfound, step, act, hi, hs, World.set, Store.getOrExtract, Call.answer?]
  | none =>
    cases he : sc.extract w.now (sc.path i) with
    | none => simp [w', hfound, step, act, hi, hs, he, World.set, Store.getOrExtract, Call.answer?]
    | some d => simp [w', hfound, step, act, hi, hs, he, World.set, Store.getOrExtract, Call.answer?]

/-- **Answers of the cache, whatever the order of the steps.** An answer from the store was read from
the file between the call's first two steps, at the first of them if the file still has its stamp. An
answer from the file is what the file declares when it is read. A call that fails leaves the store
as it would be without it. A call that gets to take four steps answers, and one that nothing comes
between does what extracting the file through the cache does. -/
theorem answers_in_any_order (sc : Scene) (es : List Event) (i : Nat) :
    let w := sc.run es
    let p := sc.path i
    (∀ stat load d, w.calls i = .hit stat load d →
      (∃ m, stat ≤ m ∧ m ≤ load ∧ sc.extract m p = some d) ∧
        (sc.stamp? load p = sc.stamp? stat p → sc.extract stat p = some d)) ∧
    (∀ read answer, w.calls i = .computed read answer → answer = sc.extract read p) ∧
    (∀ read, w.calls i = .computed read none → w.store = (sc.run (es.filter (· ≠ .act i))).store) ∧
    (4 ≤ es.count (.act i) → ∃ answer, (w.calls i).answer? = some answer) ∧
    (w.calls i = .ready →
      let w' := sc.run (es ++ [.act i, .act i, .act i, .act i])
      let found := (sc.tree w.now).extract w.store p (sc.key p)
      (w'.calls i).answer? = some found.1 ∧ w'.store = found.2) := by
  intro w p
  have hcall : sc.CallSound w.now p (w.calls i) := (sound_run es).calls i
  refine ⟨fun stat load d hi => ?_, fun read answer hi => ?_, fun read hi => ?_, fun hcount => ?_,
    fun hi => ?_⟩
  · rw [hi] at hcall
    obtain ⟨hle, s, hstat, hbacked⟩ := hcall
    refine ⟨hbacked.since hstat hle, fun hstamp => ?_⟩
    obtain ⟨m, hm, hml, hread⟩ := hbacked.since hstat hle
    have hload : sc.stamp? load p = some s := hstamp.trans hstat
    have hfirst := fileAt_eq hstat hload (Nat.le_refl stat) hle
    have hthen := fileAt_eq hstat hload hm hml
    exact (extract_congr (hfirst.trans hthen.symm)).trans hread
  · rw [hi] at hcall
    exact hcall
  · have hsame : SameBut i ({} : World) {} := ⟨rfl, rfl, fun _ _ => rfl⟩
    have hsaved : ((es.foldl sc.step {}).calls i).hasSaved = false := by
      rw [show (es.foldl sc.step {}).calls i = _ from hi]
      rfl
    exact (sameBut_foldl hsame es hsaved).store
  · have hleft : ((es.foldl sc.step {}).calls i).left ≤ 4 - es.count (.act i) := left_foldl es
    have hzero : ((es.foldl sc.step {}).calls i).left = 0 := by omega
    exact answer?_of_left hzero
  · have hfour := @act_four sc (sc.run es) i hi
    simp only [run, List.foldl_append] at hfour ⊢
    exact hfour

/-! ## A file that is written while calls ask for it -/

theorem mem_of_fileAt {t : FileTree} {p : String} {f : File} (h : t.fileAt p = .ok f) :
    ∃ r, (r, f) ∈ t.files := by
  unfold FileTree.fileAt at h
  cases hr : t.resolve p with
  | error e => rw [hr] at h; cases h
  | ok r =>
    rw [hr] at h
    cases hf : t.file? r with
    | none => simp [hf, bind, Except.bind, throw, throwThe, MonadExceptOf.throw] at h
    | some g =>
      obtain rfl : g = f := by simpa [hf, bind, Except.bind, pure, Except.pure] using h
      obtain ⟨l₁, l₂, hl, -⟩ := List.lookup_eq_some_iff.1 hf
      exact ⟨r, by rw [hl]; simp⟩

theorem modified_of_stamp? {t : FileTree} {p : String} {s : FileStamp} (h : t.stamp? p = some s) :
    ∃ e ∈ t.files, e.2.modified = s.modified := by
  unfold FileTree.stamp? at h
  split at h
  · rename_i bytes modified hf
    obtain ⟨r, hmem⟩ := mem_of_fileAt hf
    obtain rfl := Option.some.inj h
    exact ⟨_, hmem, rfl⟩
  · cases h

/-- A folder with one script in it. -/
def oneScript (text : String) (modified : Int) : FileTree :=
  { files := [(["main.js"], ⟨.plain text.toUTF8.toList, modified⟩)] }

/-- The script as it was, as it is written next, and broken in the end. -/
def rewrittenScript : Nat → FileTree
  | 0 => oneScript "function one() \x7b\x7d" 1
  | 1 => oneScript "function two() \x7b\x7d" 2
  | _ => oneScript "function (" 3

/-- All calls ask for one script that is written twice. -/
def rewritten : Scene where
  tree := rewrittenScript
  path _ := "/main.js"
  key p := p
  fresh n p s h := by
    have hmod {text : String} {modified : Int} {s : FileStamp}
        (h : (oneScript text modified).stamp? p = some s) : s.modified = modified := by
      obtain ⟨e, hmem, heq⟩ := modified_of_stamp? h
      obtain rfl := List.mem_singleton.1 hmem
      exact heq.symm
    match n, h with
    | 0, h =>
      refine .inr fun m hm h' => ?_
      obtain rfl := Nat.le_zero.1 hm
      exact absurd ((hmod h').symm.trans (hmod h)) (by decide)
    | 1, h =>
      refine .inr fun m hm h' => ?_
      match m, hm, h' with
      | 0, _, h' => exact absurd ((hmod h').symm.trans (hmod h)) (by decide)
      | 1, _, h' => exact absurd ((hmod h').symm.trans (hmod h)) (by decide)
    | n + 2, _ => exact .inl rfl
  key_inj _ _ h := h

/-- What the script declares. -/
def declaredIn (text : String) : Declarations := (Declarations.ofText? text "/main.js").getD {}

/-- Two calls look at the stamp. One of them goes on, but reads only when the script was written
again, and stores what it read under the older stamp. There the other one finds it. -/
def overtaken : List Event :=
  [.act 0, .act 1, .act 1, .write, .act 1, .act 1, .act 0]

theorem overtaken_answers_later_script :
    (rewritten.run overtaken).calls 0 = .hit 0 1 (declaredIn "function two() \x7b\x7d") ∧
      rewritten.extract 0 (rewritten.path 0) ≠ some (declaredIn "function two() \x7b\x7d") := by
  decide +kernel

/-- A call reads and stores, another finds what it stored, and a third fails on the broken script. -/
def undisturbed : List Event :=
  [.act 1, .act 1, .act 1, .act 1, .act 0, .act 0, .write, .write, .act 2, .act 2, .act 2, .act 2]

theorem undisturbed_answers :
    let w := rewritten.run undisturbed
    let one := declaredIn "function one() \x7b\x7d"
    (w.calls 0 = .hit 0 0 one ∧ rewritten.extract 0 "/main.js" = some one) ∧
    (w.calls 1 = .computed 0 (some one) ∧ some one = rewritten.extract 0 "/main.js") ∧
    (w.calls 2 = .computed 2 none ∧
      w.store = (rewritten.run (undisturbed.filter (· ≠ .act 2))).store) ∧
    (∃ answer, (w.calls 2).answer? = some answer) ∧
    w.calls 3 = .ready ∧
      ((rewritten.run (undisturbed ++ [.act 3, .act 3, .act 3, .act 3])).calls 3).answer? =
        some ((rewritten.tree w.now).extract w.store "/main.js" "/main.js").1 := by
  have hzero : (rewritten.run undisturbed).calls 0 =
      .hit 0 0 (declaredIn "function one() \x7b\x7d") := by decide +kernel
  have hone : (rewritten.run undisturbed).calls 1 =
      .computed 0 (some (declaredIn "function one() \x7b\x7d")) := by decide +kernel
  have htwo : (rewritten.run undisturbed).calls 2 = .computed 2 none := by decide +kernel
  have hthree : (rewritten.run undisturbed).calls 3 = .ready := by decide +kernel
  obtain ⟨hhit, -⟩ := answers_in_any_order rewritten undisturbed 0
  obtain ⟨-, hcomputed, -⟩ := answers_in_any_order rewritten undisturbed 1
  obtain ⟨-, -, hfailed, hend, -⟩ := answers_in_any_order rewritten undisturbed 2
  obtain ⟨-, -, -, -, halone⟩ := answers_in_any_order rewritten undisturbed 3
  exact ⟨⟨hzero, (hhit 0 0 _ hzero).2 rfl⟩, ⟨hone, hcomputed 0 _ hone⟩, ⟨htwo, hfailed 2 htwo⟩,
    hend (by decide), hthree, (halone hthree).1⟩

end Scene

end Cache

end ScriptAtlas
