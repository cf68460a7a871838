/-
Where nodes start. Pieces are laid out along the text, so the place after a
piece is the place after its text (`stop_placeAll`), and a node starts after the
text of the pieces before it. The places along one text are ordered by their
lines and columns as they are by their bytes (`before_of_byte_lt`): a place with
more bytes before it is reached from the other one by some more characters, and
every character leads to a later column or to a later line.
-/
import Mathlib.Data.String.Basic
import ScriptAtlas.Proofs.GrammarLaws
import ScriptAtlas.Proofs.WholeText

namespace ScriptAtlas.Script

/-! ## Places along a text -/

namespace Spot

variable {a b c s : Spot} {text front : List Char}

/-- The place is on an earlier line, or further left on the same one. -/
def Before (a b : Spot) : Prop := a.line < b.line ∨ a.line = b.line ∧ a.column < b.column

theorem Before.trans (hab : a.Before b) (hbc : b.Before c) : a.Before c := by
  unfold Before at *
  omega

theorem before_step (s : Spot) (c : Char) : s.Before (s.step c) := by
  have hc := c.utf8Size_pos
  unfold step
  split
  · exact .inl (Nat.lt_succ_self _)
  · exact .inr ⟨rfl, Nat.lt_add_of_pos_right hc⟩

theorem after_append (s : Spot) (t u : List Char) : s.after (t ++ u) = (s.after t).after u :=
  List.foldl_append

theorem before_after_cons (s : Spot) (c : Char) (t : List Char) : s.Before (s.after (c :: t)) := by
  induction t generalizing s c with
  | nil => exact s.before_step c
  | cons d t ih => exact (s.before_step c).trans (ih (s.step c) d)

theorem byte_after (s : Spot) (t : List Char) : (s.after t).byte = s.byte + String.utf8Len t := by
  induction t generalizing s with
  | nil => rfl
  | cons c t ih =>
    have hstep : (s.step c).byte = s.byte + c.utf8Size := by unfold step; split <;> rfl
    rw [show s.after (c :: t) = (s.step c).after t from rfl, ih, hstep, String.utf8Len_cons]
    omega

/-- There are no more lines before a place than bytes, and no more columns. -/
theorem le_byte_after (h : s.line ≤ s.byte ∧ s.column ≤ s.byte) (t : List Char) :
    (s.after t).line ≤ (s.after t).byte ∧ (s.after t).column ≤ (s.after t).byte := by
  induction t generalizing s with
  | nil => exact h
  | cons c t ih =>
    refine ih ?_
    have hc := c.utf8Size_pos
    unfold step
    split <;> simp only <;> omega

/-- The place is after a part of the text from its start on. -/
def In (text : List Char) (s : Spot) : Prop := ∃ front, front <+: text ∧ s = after {} front

/-- **Bytes order places as lines and columns do.** -/
theorem before_of_byte_lt (ha : a.In text) (hb : b.In text) (h : a.byte < b.byte) : a.Before b := by
  obtain ⟨front, hfront, rfl⟩ := ha
  obtain ⟨front', hfront', rfl⟩ := hb
  rcases List.prefix_or_prefix_of_prefix hfront hfront' with ⟨more, rfl⟩ | ⟨more, rfl⟩
  · rw [after_append] at h ⊢
    cases more with
    | nil => exact absurd h (Nat.lt_irrefl _)
    | cons c more => exact before_after_cons _ c more
  · rw [after_append] at h
    exact absurd h (Nat.not_lt.2 (byte_le_after _ _))

/-- Lines and columns of places along a text are at most its size. -/
theorem In.le_size (h : s.In text) :
    s.line ≤ String.utf8Len text ∧ s.column ≤ String.utf8Len text := by
  obtain ⟨front, hfront, rfl⟩ := h
  have hle := le_byte_after (s := {}) ⟨Nat.le_refl _, Nat.le_refl _⟩ front
  have hbyte : (after {} front).byte ≤ String.utf8Len text := by
    rw [byte_after, Nat.zero_add]
    exact String.utf8Len_le_of_prefix hfront
  exact ⟨hle.1.trans hbyte, hle.2.trans hbyte⟩

end Spot

/-! ## Pieces along a text -/

namespace Shape

mutual

theorem stop_place : ∀ (p : Shape) (s : Spot), (place s p).2 = s.after p.text
  | blank _, _ => rfl
  | mark _, _ => rfl
  | leaf _ _ _ _, _ => rfl
  | node _ _ ps, s => stop_placeAll ps s

/-- The place after pieces is the place after their text. -/
theorem stop_placeAll : ∀ (ps : Pieces) (s : Spot), (placeAll s ps).2 = s.after (texts ps)
  | [], _ => rfl
  | p :: ps, s => by
    rw [show (placeAll s (p :: ps)).2 = (placeAll (place s p).2 ps).2 from rfl, stop_placeAll ps,
      stop_place p, texts, Spot.after_append]

end

section

variable {p : Shape} {ps : Pieces} {s : Spot} {n : Node}

/-- What a node is laid out from: a word, or pieces that are laid out as its parts. -/
theorem of_mem_place (h : n ∈ (place s p).1) : n.start = s ∧
    ((∃ c t, p = leaf n.kind n.role c t) ∨
      ∃ qs, p = node n.kind n.role qs ∧ n.parts = (placeAll s qs).1) := by
  cases p with
  | blank t => cases h
  | mark t => cases h
  | leaf k r c t =>
    obtain rfl := List.mem_singleton.1 h
    exact ⟨rfl, .inl ⟨c, t, rfl⟩⟩
  | node k r qs =>
    obtain rfl := List.mem_singleton.1 h
    exact ⟨rfl, .inr ⟨qs, rfl, rfl⟩⟩

/-- A node is laid out from one of the pieces, after the text of those before it. -/
theorem of_mem_placeAll (h : n ∈ (placeAll s ps).1) : ∃ before p after,
    ps = before ++ p :: after ∧ n ∈ (place (s.after (texts before)) p).1 := by
  induction ps generalizing s with
  | nil => cases h
  | cons p ps ih =>
    rcases List.mem_append.1 h with h | h
    · exact ⟨[], p, ps, rfl, h⟩
    · obtain ⟨before, q, after, rfl, hn⟩ := ih h
      refine ⟨p :: before, q, after, rfl, ?_⟩
      rwa [stop_place, ← Spot.after_append] at hn

theorem kind?_of_mem_place (h : n ∈ (place s p).1) : p.kind? = some n.kind ∧ p.role? = n.role := by
  obtain ⟨-, ⟨c, t, rfl⟩ | ⟨qs, rfl, -⟩⟩ := of_mem_place h <;> exact ⟨rfl, rfl⟩

end

end Shape

open Shape

/-! ## Nodes along a text -/

namespace Node

variable {k : Kind} {n m : Node}

theorem mem_allOfKind : ∀ {ns : List Node}, m ∈ allOfKind k ns ↔ ∃ n ∈ ns, m ∈ ofKind k n
  | [] => by simp [allOfKind]
  | n :: ns => by simp [allOfKind, mem_allOfKind]

theorem mem_ofKind_part (h : m ∈ n.parts) : m ∈ ofKind m.kind n :=
  mem_ofKind.2 (.inr (mem_allOfKind.2 ⟨m, h, mem_ofKind.2 (.inl ⟨rfl, rfl⟩)⟩))

theorem mem_ofKind_part_part {l : Node} (hm : m ∈ n.parts) (hl : l ∈ m.parts) : l ∈ ofKind l.kind n :=
  mem_ofKind.2 (.inr (mem_allOfKind.2 ⟨m, hm, mem_ofKind_part hl⟩))

/-- Of nodes that follow one another, each ends before the next ones start. -/
theorem AllLaid.pairwise {ns : List Node} {first last : Nat} (h : AllLaid first ns last) :
    ns.Pairwise fun m n => m.stop.byte ≤ n.start.byte := by
  rw [List.pairwise_iff_getElem]
  intro i j hi hj hij
  exact stop_le_start h hij (List.getElem?_eq_getElem hi) (List.getElem?_eq_getElem hj)

end Node

mutual

theorem start_of_mem_place {k : Kind} : ∀ {p : Shape} {s : Spot} {n : Node},
    n ∈ Node.allOfKind k (place s p).1 → ∃ front, front <+: p.text ∧ n.start = s.after front
  | .blank t, s, n, h => nomatch h
  | .mark t, s, n, h => nomatch h
  | .leaf kind role c t, s, n, h => by
    simp only [place, Node.allOfKind, List.append_nil, Node.mem_ofKind, List.not_mem_nil, or_false] at h
    obtain ⟨rfl, -⟩ := h
    exact ⟨[], List.nil_prefix, rfl⟩
  | .node kind role ps, s, n, h => by
    simp only [place, Node.allOfKind, List.append_nil, Node.mem_ofKind] at h
    rcases h with ⟨rfl, -⟩ | h
    · exact ⟨[], List.nil_prefix, rfl⟩
    · exact start_of_mem_placeAll h

/-- A node starts after some of the text of the pieces it is laid out from. -/
theorem start_of_mem_placeAll {k : Kind} : ∀ {ps : Pieces} {s : Spot} {n : Node},
    n ∈ Node.allOfKind k (placeAll s ps).1 → ∃ front, front <+: texts ps ∧ n.start = s.after front
  | [], s, n, h => nomatch h
  | p :: ps, s, n, h => by
    simp only [placeAll, Node.allOfKind_append, List.mem_append] at h
    rcases h with h | h
    · obtain ⟨front, hfront, hstart⟩ := start_of_mem_place h
      exact ⟨front, hfront.trans (List.prefix_append _ _), hstart⟩
    · obtain ⟨front, hfront, hstart⟩ := start_of_mem_placeAll h
      refine ⟨p.text ++ front, (List.prefix_append_right_inj _).2 hfront, ?_⟩
      rw [hstart, stop_place, Spot.after_append]

end

/-- **Every node starts along the text of the script.** -/
theorem start_in_text {text : String} {s : Source} (h : Source.parse? text = some s) {k : Kind}
    {n : Node} (hn : n ∈ s.root.ofKind k) : n.start.In text.toList := by
  obtain ⟨ps, hps, hroot⟩ := root_eq_treeOf h
  rw [hroot] at hn
  rcases Node.mem_ofKind.1 hn with ⟨rfl, -⟩ | hn
  · exact ⟨[], List.nil_prefix, rfl⟩
  · obtain ⟨front, hfront, hstart⟩ := start_of_mem_placeAll hn
    exact ⟨front, texts_pieces hps ▸ hfront, hstart⟩

end ScriptAtlas.Script
