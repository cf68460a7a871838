/-
The stack of scopes copies a frame for every block that is entered. What its
users see is lexical scoping all the same: the answers of any run are those of
a stack that gives a block an empty frame and looks a name up from the innermost
frame outwards (`LayeredStack`).

The two are related frame by frame: a copied frame has what its layer and the
layers below it have together (`Copies`). Only the innermost frame is ever
written, so the frames below a copy still say what they said when it was made.
-/
import ScriptAtlas.Proofs.ScopeResolution

namespace ScriptAtlas

/-! ## Stacks of scopes -/

/-- A stack of scopes, as its users see it. -/
structure Scoping (σ : Type) where
  new : σ
  push : σ → σ
  pop : σ → σ
  bind : σ → String → TypeInfo → σ
  lookup : σ → String → Option TypeInfo
  depth : σ → Nat

namespace Scoping

/-- What is asked of a stack. -/
inductive Step where
  | push
  | pop
  | bind (name : String) (type : TypeInfo)
  | lookup (name : String)
  deriving DecidableEq, Repr

/-- What is seen of a step: the depth after it, and the type that a lookup found. -/
structure Answer where
  depth : Nat
  found : Option TypeInfo
  deriving DecidableEq, Repr

section

variable {σ : Type} (sc : Scoping σ)

/-- The stack after a step. -/
def step (s : σ) : Step → σ
  | .push => sc.push s
  | .pop => sc.pop s
  | .bind name type => sc.bind s name type
  | .lookup _ => s

/-- The type that a step finds. -/
def found (s : σ) : Step → Option TypeInfo
  | .lookup name => sc.lookup s name
  | _ => none

/-- The stack after steps on a new one. -/
def run (steps : List Step) : σ := steps.foldl sc.step sc.new

/-- What is seen of steps, one after another. -/
def answers (s : σ) : List Step → List Answer
  | [] => []
  | a :: steps => ⟨sc.depth (sc.step s a), sc.found s a⟩ :: answers (sc.step s a) steps

end

end Scoping

open Scoping (Step)

/-- Frames of which each has only what its own block binds: those of the blocks, innermost first, and
that of the file. -/
structure LayeredStack where
  blocks : List Frame := []
  file : Frame := []
  deriving DecidableEq, Repr, Inhabited

namespace LayeredStack

/-- All frames, innermost first. -/
def frames (s : LayeredStack) : List Frame := s.blocks ++ [s.file]

/-- A block starts with nothing. -/
def push (s : LayeredStack) : LayeredStack := { s with blocks := [] :: s.blocks }

/-- The innermost block goes, if there is one. -/
def pop (s : LayeredStack) : LayeredStack := { s with blocks := s.blocks.tail }

/-- Bind a name in the innermost block, or in the file if no block is open. -/
def bind (s : LayeredStack) (name : String) (type : TypeInfo) : LayeredStack :=
  match s.blocks with
  | [] => { s with file := s.file.insert name type }
  | f :: fs => { s with blocks := f.insert name type :: fs }

/-- The binding in the innermost frame that has one. -/
def lookup (s : LayeredStack) (name : String) : Option TypeInfo := s.frames.findSome? (Frame.get? name)

/-- The number of frames. -/
def depth (s : LayeredStack) : Nat := s.frames.length

end LayeredStack

/-- The stack of a walk. -/
def copying : Scoping ScopeStack :=
  ⟨{}, ScopeStack.push, ScopeStack.pop, ScopeStack.bind, ScopeStack.lookup, ScopeStack.depth⟩

/-- Lexical scoping. -/
def layered : Scoping LayeredStack :=
  ⟨{}, LayeredStack.push, LayeredStack.pop, LayeredStack.bind, LayeredStack.lookup, LayeredStack.depth⟩

/-! ## Copies and layers -/

/-- Each copied frame has what its layer and the layers below it have together. -/
inductive Copies : List Frame → List Frame → Prop
  | nil : Copies [] []
  | cons {copy layer : Frame} {copies layers : List Frame}
    (h : ∀ x, copy.get? x = (layer :: layers).findSome? (Frame.get? x))
    (hs : Copies copies layers) : Copies (copy :: copies) (layer :: layers)

/-- The frames of the copying stack are copies of the layers. -/
def ScopeStack.Mirrors (s : ScopeStack) (t : LayeredStack) : Prop := Copies (s.top :: s.below) t.frames

section

variable {copy layer : Frame} {copies layers : List Frame} {s : ScopeStack} {t : LayeredStack}

theorem Copies.length_eq (h : Copies copies layers) : copies.length = layers.length := by
  induction h with
  | nil => rfl
  | cons _ _ ih => simp only [List.length_cons, ih]

theorem Copies.get?_eq (h : Copies (copy :: copies) layers) (x : String) :
    copy.get? x = layers.findSome? (Frame.get? x) := by
  cases h with
  | cons hget _ => exact hget x

/-- Where the first copy has nothing, no layer has, and so no other copy. -/
theorem Copies.findSome?_eq (h : Copies copies layers) (x : String) :
    copies.findSome? (Frame.get? x) = layers.findSome? (Frame.get? x) := by
  induction h with
  | nil => rfl
  | @cons copy layer copies layers hget hs ih =>
    rw [List.findSome?_cons, hget x]
    cases hfound : (layer :: layers).findSome? (Frame.get? x) with
    | some type => rfl
    | none =>
      have hlayers : layers.findSome? (Frame.get? x) = none := by
        rw [List.findSome?_eq_none_iff] at hfound ⊢
        exact (List.forall_mem_cons.1 hfound).2
      exact ih.trans hlayers

theorem LayeredStack.frames_bind (t : LayeredStack) (name : String) (type : TypeInfo) {layer : Frame}
    {layers : List Frame} (h : t.frames = layer :: layers) :
    (t.bind name type).frames = layer.insert name type :: layers := by
  obtain ⟨blocks, file⟩ := t
  cases blocks with
  | nil =>
    obtain ⟨rfl, rfl⟩ := List.cons.inj h
    rfl
  | cons f fs =>
    obtain ⟨rfl, rfl⟩ := List.cons.inj h
    rfl

namespace ScopeStack.Mirrors

theorem new : Mirrors copying.new layered.new := .cons (fun _ => rfl) .nil

theorem push (h : s.Mirrors t) : s.push.Mirrors t.push := by
  refine .cons (fun x => ?_) h
  rw [List.findSome?_cons]
  exact h.get?_eq x

theorem pop (h : s.Mirrors t) : s.pop.Mirrors t.pop := by
  obtain ⟨top, below⟩ := s
  obtain ⟨blocks, file⟩ := t
  cases blocks with
  | nil =>
    -- the file's frame is the only one of either stack, and stays
    have hlength := h.length_eq
    obtain rfl : below = [] := by simpa [LayeredStack.frames] using hlength
    exact h
  | cons f fs =>
    cases h with
    | cons _ hs =>
      cases below with
      | nil => exact absurd hs.length_eq (by simp)
      | cons g gs => exact hs

theorem bind (h : s.Mirrors t) (name : String) (type : TypeInfo) :
    (s.bind name type).Mirrors (t.bind name type) := by
  unfold Mirrors at h ⊢
  cases hframes : t.frames with
  | nil => simp [LayeredStack.frames] at hframes
  | cons layer layers =>
    rw [hframes] at h
    rw [t.frames_bind name type hframes]
    cases h with
    | cons hget hs =>
      refine .cons (fun x => ?_) hs
      have hcopy : (s.bind name type).top.get? x = if name = x then some type else s.top.get? x :=
        Frame.get?_insert x name type s.top
      rw [hcopy, hget x, List.findSome?_cons, List.findSome?_cons, Frame.get?_insert]
      split <;> rfl

/-- **One step**: the copies stay copies. -/
theorem step (h : s.Mirrors t) (a : Step) : (copying.step s a).Mirrors (layered.step t a) := by
  cases a with
  | push => exact h.push
  | pop => exact h.pop
  | bind name type => exact h.bind name type
  | lookup name => exact h

theorem depth_eq (h : s.Mirrors t) : s.depth = t.depth := h.length_eq

theorem lookup_eq (h : s.Mirrors t) (x : String) : s.lookup x = t.lookup x := h.findSome?_eq x

theorem found_eq (h : s.Mirrors t) (a : Step) : copying.found s a = layered.found t a := by
  cases a with
  | lookup x => exact h.lookup_eq x
  | _ => rfl

theorem foldl (h : s.Mirrors t) (steps : List Step) :
    (steps.foldl copying.step s).Mirrors (steps.foldl layered.step t) := by
  induction steps generalizing s t with
  | nil => exact h
  | cons a steps ih => exact ih (h.step a)

/-- **All steps**: the copies stay copies. -/
theorem run (steps : List Step) : (copying.run steps).Mirrors (layered.run steps) := new.foldl steps

theorem answers_eq (h : s.Mirrors t) (steps : List Step) :
    copying.answers s steps = layered.answers t steps := by
  induction steps generalizing s t with
  | nil => rfl
  | cons a steps ih =>
    have hdepth : copying.depth (copying.step s a) = layered.depth (layered.step t a) :=
      (h.step a).depth_eq
    simp only [Scoping.answers, hdepth, h.found_eq a, ih (h.step a)]

/-- What is looked up is in the innermost copy. -/
theorem lookup_eq_top (h : s.Mirrors t) (x : String) : s.lookup x = s.top.get? x :=
  (h.lookup_eq x).trans (h.get?_eq x).symm

end ScopeStack.Mirrors

/-! ## The frame of the file -/

/-- The outermost frame. -/
def ScopeStack.file (s : ScopeStack) : Frame := (s.top :: s.below).getLast (List.cons_ne_nil _ _)

/-- The bindings that steps make while no block is open, if so many are open before them. -/
def fileBindings : (blocks : Nat) → List Step → List (String × TypeInfo)
  | _, [] => []
  | blocks, .push :: steps => fileBindings (blocks + 1) steps
  | blocks, .pop :: steps => fileBindings (blocks - 1) steps
  | 0, .bind name type :: steps => (name, type) :: fileBindings 0 steps
  | blocks + 1, .bind _ _ :: steps => fileBindings (blocks + 1) steps
  | blocks, .lookup _ :: steps => fileBindings blocks steps

/-- A frame with further bindings, each in place of what its name was bound to. -/
def Frame.insertAll (f : Frame) (bindings : List (String × TypeInfo)) : Frame :=
  bindings.foldl (fun f b => f.insert b.1 b.2) f

/-- Steps never take the frame of the file away: it has what it had, and what was bound in it since. -/
theorem ScopeStack.file_foldl (s : ScopeStack) (steps : List Step) :
    (steps.foldl copying.step s).file = s.file.insertAll (fileBindings s.below.length steps) := by
  induction steps generalizing s with
  | nil => rfl
  | cons a steps ih =>
    obtain ⟨top, below⟩ := s
    rw [List.foldl_cons, ih]
    cases a with
    | push => rfl
    | pop => cases below <;> rfl
    | bind name type => cases below <;> rfl
    | lookup name => rfl

end

/-- **The copying stack is lexical scoping.** Whatever the steps on a new stack are, surplus pops among
them, every depth and every type found is that of a stack that gives a block an empty frame and looks
names up from the innermost frame outwards. What is looked up after the steps is in the innermost frame,
and the frame of the file is still there, with what was bound while no block was open. -/
theorem copying_is_lexical (steps : List Step) :
    copying.answers copying.new steps = layered.answers layered.new steps ∧
    (∀ x, (copying.run steps).lookup x = (copying.run steps).top.get? x) ∧
    (copying.run steps).file = Frame.insertAll [] (fileBindings 0 steps) :=
  ⟨ScopeStack.Mirrors.new.answers_eq steps, (ScopeStack.Mirrors.run steps).lookup_eq_top,
    ScopeStack.file_foldl copying.new steps⟩

/-- A block shadows a name and binds another one; both are gone when it is left twice. -/
example : copying.answers copying.new [.bind "x" (.named "number"), .push, .bind "x" (.named "string"),
    .bind "y" (.named "boolean"), .lookup "x", .pop, .pop, .lookup "x", .lookup "y"] =
    [⟨1, none⟩, ⟨2, none⟩, ⟨2, none⟩, ⟨2, none⟩, ⟨2, some (.named "string")⟩, ⟨1, none⟩, ⟨1, none⟩,
      ⟨1, some (.named "number")⟩, ⟨1, none⟩] := by
  decide

end ScriptAtlas
