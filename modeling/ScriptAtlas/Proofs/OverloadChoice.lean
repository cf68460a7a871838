/-
Which overload takes a call, and which one is blamed for a call that none takes.
A function takes the call if the number of arguments is in range and each
argument fits its parameter (`Takes`). If no function does, the reasons are those
of the first function among those that miss the call least (`FirstLeast`), and
how much a function misses it by is counted without looking at the reasons
(`missed`): arguments that do not fit, arguments without a parameter, and one more
for a number out of range. An argument without a parameter therefore counts on its
own and puts the number out of range as well.

The scan for the least keeps its best so far: one step of it (`FirstLeast.step`)
and the whole of it (`FirstLeast.foldl`).
-/
import Mathlib.Order.Bounds.Defs
import ScriptAtlas.Proofs.LooserChecks

namespace ScriptAtlas.Overload

variable {options : ResolveOptions} {p : Param} {a : TypeInfo} {ps : List Param}
  {actuals : List TypeInfo} {f : Function} {fs : List Function} {i : Nat}

/-! ## Calls that are taken -/

/-- An argument of type `a` fits the parameter: it is `any`, or `null` where the parameter can be left
out, or `unknown` where that is let pass, or of the parameter's type, which may be `any`. -/
def Fits (options : ResolveOptions) (p : Param) (a : TypeInfo) : Prop :=
  a.name = "any" ∨ (a.name = "null" ∧ p.optional = true) ∨
    (a.name = "unknown" ∧ options.allowUnknown = true) ∨
    p.type.name = "any" ∨ (a.name = p.type.name ∧ a.isArray = p.type.isArray)

/-- The function takes a call with arguments of these types. -/
structure Takes (options : ResolveOptions) (actuals : List TypeInfo) (f : Function) : Prop where
  enough : f.requiredCount ≤ actuals.length
  room : actuals.length ≤ f.params.length
  fits : ∀ (i : Nat) (p : Param) (a : TypeInfo), f.params[i]? = some p → actuals[i]? = some a →
    Fits options p a

theorem accepts_iff : accepts options p a = true ↔ Fits options p a := by
  simp only [accepts, Fits, TypeInfo.isAny, TypeInfo.isNull, TypeInfo.assignable, Bool.or_eq_true,
    Bool.and_eq_true, beq_iff_eq]
  tauto

instance : Decidable (Fits options p a) := decidable_of_iff _ accepts_iff

theorem takes_iff : Takes options actuals f ↔ mismatches options actuals f = [] := by
  have hpairs : (∀ x ∈ f.params.zip actuals, accepts options x.1 x.2 = true) ↔
      ∀ (i : Nat) (p : Param) (a : TypeInfo), f.params[i]? = some p → actuals[i]? = some a →
        Fits options p a := by
    simp only [accepts_iff, List.mem_iff_getElem?, List.getElem?_zip_eq_some]
    exact ⟨fun h i p a hp ha => h (p, a) ⟨i, hp, ha⟩, fun h x ⟨i, hp, ha⟩ => h i _ _ hp ha⟩
  rw [mismatches_eq_nil_iff, hpairs]
  exact ⟨fun h => ⟨h.enough, h.room, h.fits⟩, fun h => ⟨h.1, h.2.1, h.2.2⟩⟩

instance : Decidable (Takes options actuals f) := decidable_of_iff _ takes_iff.symm

/-- **The least number of arguments** is the first place from which on all parameters can be left
out. -/
theorem isLeast_requiredCount (f : Function) :
    IsLeast {k | ∀ p ∈ f.params.drop k, p.optional = true} f.requiredCount := by
  -- the parameters, cut behind the last one that must be given
  have hcut := congrArg List.reverse
    (List.takeWhile_append_dropWhile (p := Param.optional) (l := f.params.reverse))
  rw [List.reverse_append, List.reverse_reverse] at hcut
  unfold Function.requiredCount
  generalize hkept : f.params.reverse.dropWhile Param.optional = kept at hcut ⊢
  generalize hlast : f.params.reverse.takeWhile Param.optional = last at hcut
  constructor
  · intro p hp
    rw [← hcut, List.drop_left' List.length_reverse, List.mem_reverse, ← hlast] at hp
    exact List.mem_takeWhile_imp hp
  · intro k hk
    cases kept with
    | nil => exact Nat.zero_le k
    | cons p kept =>
      by_contra hlt
      have hp : p ∈ f.params.drop k := by
        rw [← hcut, List.reverse_cons, List.append_assoc,
          List.drop_append_of_le_length (by simp at hlt ⊢; omega)]
        simp
      have hnot := List.head?_dropWhile_not Param.optional f.params.reverse
      simp [hkept, hk p hp] at hnot

/-! ## Calls that are missed -/

/-- How much the function misses the call by: the arguments that do not fit their parameters, the
arguments without one, and one more if their number is out of range. -/
def missed (options : ResolveOptions) (actuals : List TypeInfo) (f : Function) : Nat :=
  (f.params.zip actuals).countP (fun x => ¬ Fits options x.1 x.2) +
    (actuals.length - f.params.length) +
    if actuals.length < f.requiredCount ∨ f.params.length < actuals.length then 1 else 0

theorem length_badArguments : (badArguments options i ps actuals).length =
    (ps.zip actuals).countP (fun x => ¬ Fits options x.1 x.2) + (actuals.length - ps.length) := by
  induction actuals generalizing i ps with
  | nil => simp [badArguments]
  | cons a actuals ih =>
    cases ps with
    | nil => simp [badArguments, ih]
    | cons p ps =>
      by_cases ha : Fits options p a
      · simp [badArguments, accepts_iff, ha, ih]
      · simp [badArguments, accepts_iff, ha, ih]
        omega

theorem length_mismatches : (mismatches options actuals f).length = missed options actuals f := by
  rw [mismatches, List.length_append, length_badArguments, missed, badCount]
  congr 1
  simp only [Bool.or_eq_true, decide_eq_true_eq]
  split <;> rfl

/-! ## The first of the least -/

/-- The first of the least members of the list: those before it are larger, and those after it are
not smaller. -/
def FirstLeast {α : Type} (size : α → Nat) (xs : List α) (x : α) : Prop :=
  ∃ before after, xs = before ++ x :: after ∧
    (∀ y ∈ before, size x < size y) ∧ ∀ y ∈ after, size x ≤ size y

section

variable {α β : Type} {size : α → Nat} {xs : List α} {x best : α}

/-- **One step** of the scan. -/
theorem FirstLeast.step (h : FirstLeast size xs best) (x : α) :
    FirstLeast size (xs ++ [x]) (if size x < size best then x else best) := by
  obtain ⟨before, after, rfl, hbefore, hafter⟩ := h
  split
  · rename_i hlt
    refine ⟨before ++ best :: after, [], rfl, fun y hy => ?_, by simp⟩
    rcases List.mem_append.1 hy with hy | hy
    · exact hlt.trans (hbefore y hy)
    · rcases List.mem_cons.1 hy with rfl | hy
      · exact hlt
      · exact hlt.trans_le (hafter y hy)
  · rename_i hle
    refine ⟨before, after ++ [x], by simp, hbefore, fun y hy => ?_⟩
    rcases List.mem_append.1 hy with hy | hy
    · exact hafter y hy
    · obtain rfl := List.mem_singleton.1 hy
      omega

/-- **The whole scan**, from what has been scanned before. -/
theorem FirstLeast.foldl (h : FirstLeast size xs best) (ys : List α) :
    FirstLeast size (xs ++ ys)
      (ys.foldl (fun best x => if size x < size best then x else best) best) := by
  induction ys generalizing xs best with
  | nil => simpa using h
  | cons y ys ih => simpa using ih (h.step y)

theorem firstLeast_map {size : β → Nat} {g : α → β} {y : β} (h : FirstLeast size (xs.map g) y) :
    ∃ x, y = g x ∧ FirstLeast (size ∘ g) xs x := by
  obtain ⟨before, after, heq, hbefore, hafter⟩ := h
  obtain ⟨us, vs, rfl, rfl, hvs⟩ := List.map_eq_append_iff.1 heq
  obtain ⟨x, ws, rfl, rfl, rfl⟩ := List.map_eq_cons_iff.1 hvs
  refine ⟨x, rfl, us, ws, rfl, ?_, ?_⟩
  · simpa using hbefore
  · simpa using hafter

end

theorem firstLeast_shortest {ls : List (List Mismatch)} (h : ls ≠ []) :
    FirstLeast List.length ls (shortest ls) := by
  cases ls with
  | nil => exact absurd rfl h
  | cons l ls =>
    have hstart : FirstLeast List.length [l] l := ⟨[], [], rfl, by simp, by simp⟩
    exact hstart.foldl ls

/-! ## The choice -/

/-- **A call is taken by some function, or it is explained by the first one that misses it least.** With
no function there is nothing to explain it by. Each function misses the call by as much as it has
reasons, and it asks for the arguments up to its last parameter that cannot be left out. -/
theorem resolve_takes_or_explains (options : ResolveOptions) (actuals : List TypeInfo)
    (fs : List Function) :
    (resolve options actuals fs = .ok () ↔ ∃ f ∈ fs, Takes options actuals f) ∧
    ((∀ f ∈ fs, ¬ Takes options actuals f) →
      fs = [] ∧ resolve options actuals fs = .error [] ∨
      ∃ f, FirstLeast (missed options actuals) fs f ∧
        resolve options actuals fs = .error (mismatches options actuals f)) ∧
    ∀ f ∈ fs, (mismatches options actuals f).length = missed options actuals f ∧
      IsLeast {k | ∀ p ∈ f.params.drop k, p.optional = true} f.requiredCount := by
  refine ⟨?_, fun hnone => ?_, fun f _ => ⟨length_mismatches, isLeast_requiredCount f⟩⟩
  · simp only [resolve_eq_ok_iff, takes_iff]
  · have herror : resolve options actuals fs =
        .error (shortest (fs.map (mismatches options actuals))) := by
      rw [resolve, if_neg]
      simpa [takes_iff] using hnone
    cases fs with
    | nil => exact .inl ⟨rfl, herror⟩
    | cons g gs =>
      obtain ⟨f, hf, hleast⟩ := firstLeast_map (firstLeast_shortest (by simp) :
        FirstLeast List.length ((g :: gs).map (mismatches options actuals)) _)
      refine .inr ⟨f, ?_, hf ▸ herror⟩
      have hsize : List.length ∘ mismatches options actuals = missed options actuals :=
        funext fun f => length_mismatches
      rwa [hsize] at hleast

/-- Three overloads, of which the last two miss a call with one boolean by as much. -/
def tiedOverloads : List Function :=
  [Diagnostic.plainFunction "get"
      [⟨"server", .named "string", "", false⟩, ⟨"key", .named "string", "", false⟩],
    Diagnostic.plainFunction "get" [⟨"id", .named "number", "", false⟩],
    Diagnostic.plainFunction "get"
      [⟨"name", .named "string", "", false⟩, ⟨"deep", .named "boolean", "", true⟩]]

theorem tiedOverloads_explained :
    (∀ f ∈ tiedOverloads, ¬ Takes {} [.named "boolean"] f) ∧
      (∃ f, FirstLeast (missed {} [.named "boolean"]) tiedOverloads f ∧
        resolve {} [.named "boolean"] tiedOverloads = .error (mismatches {} [.named "boolean"] f)) ∧
      resolve {} [.named "boolean"] tiedOverloads =
        .error [.wrongType 0 "id" (.named "number") (.named "boolean")] := by
  have hnone : ∀ f ∈ tiedOverloads, ¬ Takes {} [.named "boolean"] f := by decide
  refine ⟨hnone, ?_, rfl⟩
  rcases (resolve_takes_or_explains {} [.named "boolean"] tiedOverloads).2.1 hnone with h | h
  · exact absurd h.1 (by simp [tiedOverloads])
  · exact h

end ScriptAtlas.Overload
