/-
Pieces on their way to a tree. `Clean` pieces are lawful and play no role yet.
A `Whole` is one node with the gap before it: it can be put in a role, and
lawful pieces become a whole when they are made into one node of a kind that
has their roles. An expression that turns out to be a pattern stays lawful.
-/
import Mathlib.Data.List.TakeWhile
import ScriptAtlas.Proofs.TreeLaws

namespace ScriptAtlas.Script

/-- The kind has parts that play these roles, and no part that it has to start with. -/
def Kind.Takes (k : Kind) (rs : List Role) : Prop :=
  k.isWord = false ∧ k.lead? = none ∧ rs ∈ k.fields

instance (k : Kind) (rs : List Role) : Decidable (k.Takes rs) :=
  inferInstanceAs (Decidable (_ ∧ _ ∧ _))

/-! ## Clean and whole pieces -/

namespace Shape

/-- Lawful pieces that only separate others. -/
def Gaps (ps : Pieces) : Prop := ∀ p ∈ ps, p.isGap = true ∧ p.Lawful

/-- Lawful pieces that play no role yet. -/
structure Clean (ps : Pieces) : Prop where
  lawful : AllLawful ps
  roles : roles ps = []

/-- A lawful node in that role, if in any. -/
structure Solid (role : Option Role) (p : Shape) : Prop where
  lawful : p.Lawful
  role : p.role? = role
  named : p.kind?.isSome = true
  solid : p.isGap = false

/-- One node in that role, if in any, and the gap before it. -/
def Whole (role : Option Role) (ps : Pieces) : Prop :=
  ∃ gap main, ps = gap ++ [main] ∧ Gaps gap ∧ Solid role main

section

variable {p main : Shape} {ps qs gap : Pieces} {k : Kind} {r : Role} {role : Option Role}

@[simp] theorem clean_nil : Clean [] := ⟨trivial, rfl⟩

@[simp] theorem clean_append : Clean (ps ++ qs) ↔ Clean ps ∧ Clean qs := by
  constructor
  · rintro ⟨hl, hr⟩
    rw [allLawful_append] at hl
    rw [roles_append, List.append_eq_nil_iff] at hr
    exact ⟨⟨hl.1, hr.1⟩, ⟨hl.2, hr.2⟩⟩
  · rintro ⟨⟨hl, hr⟩, ⟨hl', hr'⟩⟩
    exact ⟨allLawful_append.2 ⟨hl, hl'⟩, by rw [roles_append, hr, hr']; rfl⟩

theorem clean_flatten {pss : List Pieces} (h : ∀ ps ∈ pss, Clean ps) : Clean pss.flatten := by
  induction pss with
  | nil => exact clean_nil
  | cons ps pss ih =>
    rw [List.flatten_cons, clean_append]
    exact ⟨h ps (by simp), ih fun qs hq => h qs (by simp [hq])⟩

/-- A gap plays no role. -/
theorem role?_of_isGap (hg : p.isGap = true) (hl : p.Lawful) : p.role? = none := by
  cases p with
  | blank t => rfl
  | mark t => rfl
  | leaf k r c t => exact hl.2.2 hg
  | node k r ps => simp [isGap] at hg

theorem Gaps.clean (h : Gaps ps) : Clean ps where
  lawful := allLawful_iff.2 fun p hp => (h p hp).2
  roles := List.filterMap_eq_nil_iff.2 fun p hp => role?_of_isGap (h p hp).1 (h p hp).2

theorem Gaps.append (hp : Gaps ps) (hq : Gaps qs) : Gaps (ps ++ qs) := by
  intro p hm
  exact (List.mem_append.1 hm).elim (hp p) (hq p)

theorem Gaps.reverse (h : Gaps ps) : Gaps ps.reverse := by
  intro p hp
  exact h p (List.mem_reverse.1 hp)

theorem Whole.lawful (h : Whole role ps) : AllLawful ps := by
  obtain ⟨gap, main, rfl, hg, hm⟩ := h
  exact allLawful_append.2 ⟨hg.clean.lawful, hm.lawful, trivial⟩

theorem Whole.roles (h : Whole role ps) : roles ps = role.toList := by
  obtain ⟨gap, main, rfl, hg, hm⟩ := h
  rw [roles_append, hg.clean.roles]
  simp only [Shape.roles, List.filterMap_cons, hm.role, List.filterMap_nil, List.nil_append]
  cases role <;> rfl

theorem Whole.clean (h : Whole none ps) : Clean ps := ⟨h.lawful, h.roles⟩

theorem Whole.lead (hg : Gaps ps) (h : Whole role qs) : Whole role (ps ++ qs) := by
  obtain ⟨gap, main, rfl, hgap, hm⟩ := h
  exact ⟨ps ++ gap, main, by simp, hg.append hgap, hm⟩

theorem Gaps.dropWhile (hg : Gaps gap) (hm : main.isGap = false) (qs : Pieces) :
    (gap ++ [main] ++ qs).dropWhile isGap = main :: qs := by
  rw [List.append_assoc, List.dropWhile_append_of_pos fun p hp => (hg p hp).1]
  simp [hm]

/-- What comes first behind the gap is the node. -/
theorem Whole.head (h : Whole (some r) ps) (qs : Pieces) :
    ((ps ++ qs).dropWhile isGap).head?.bind role? = some r := by
  obtain ⟨gap, main, rfl, hg, hm⟩ := h
  rw [hg.dropWhile hm.solid]
  exact hm.role

theorem Solid.withRole (h : Solid role p) (hr : r ≠ .parameters ∨ p.kind? = some .parameters) :
    Solid (some r) (p.withRole r) := by
  obtain ⟨hl, -, hn, hs⟩ := h
  cases p with
  | blank t => simp [kind?] at hn
  | mark t => simp [kind?] at hn
  | leaf k r' c t =>
    have hk : k ≠ .parameters := by
      rintro rfl
      simp [Lawful, Kind.isWord] at hl
    refine ⟨⟨hl.1, ?_, ?_⟩, rfl, rfl, hs⟩
    · simpa [kind?, hk] using hr
    · intro hg
      exact absurd hg (by simpa [isGap, Kind.isGap] using hs)
  | node k r' ps =>
    refine ⟨⟨?_, hl.2⟩, rfl, rfl, rfl⟩
    rintro ⟨⟩
    simpa [kind?] using hr

/-- **A whole in a role** is a whole in that role. -/
theorem Whole.withRole (h : Whole role ps) (hr : r ≠ .parameters) :
    Whole (some r) (Pieces.withRole r ps) := by
  obtain ⟨gap, main, rfl, hg, hm⟩ := h
  refine ⟨gap, main.withRole r, ?_, hg, hm.withRole (.inl hr)⟩
  simp [Pieces.withRole, Pieces.mapMain]

/-! ## Pieces as one node -/

theorem AllLawful.gaps (h : AllLawful ps) : Gaps (ps.takeWhile isGap) := by
  intro p hp
  exact ⟨List.mem_takeWhile_imp hp,
    allLawful_iff.1 h p ((List.takeWhile_sublist _).subset hp)⟩

theorem AllLawful.dropGaps (h : AllLawful ps) : AllLawful (ps.dropWhile isGap) :=
  allLawful_iff.2 fun p hp => allLawful_iff.1 h p ((List.dropWhile_sublist _).subset hp)

theorem AllLawful.roles_dropGaps (h : AllLawful ps) : roles (ps.dropWhile isGap) = roles ps := by
  calc roles (ps.dropWhile isGap)
      = roles (ps.takeWhile isGap) ++ roles (ps.dropWhile isGap) := by rw [h.gaps.clean.roles]; rfl
    _ = roles ps := by rw [← roles_append, List.takeWhile_append_dropWhile]

/-- Lawful pieces as one node of a kind that has their roles. -/
theorem whole_wrap (h : AllLawful ps) (hk : k.isWord = false) (hr : roles ps ∈ k.fields)
    (hl : ∀ l, k.lead? = some l → (ps.dropWhile isGap).head?.bind role? = some l) :
    Whole none (Pieces.wrap k ps) :=
  ⟨_, _, rfl, h.gaps, ⟨nofun, hk, by rwa [h.roles_dropGaps], hl, h.dropGaps⟩, rfl, rfl, rfl⟩

theorem whole_wrap_of {l : List Role} (hk : k.Takes l) (h : AllLawful ps) (hr : roles ps = l) :
    Whole none (Pieces.wrap k ps) :=
  whole_wrap h hk.1 (hr ▸ hk.2.2) fun l hl => by simp [hk.2.1] at hl

/-- A list of parameters in the role of one. -/
theorem whole_parameters (hg : Gaps qs) (h : Clean ps) :
    Whole (some .parameters) (qs ++ [node .parameters (some .parameters) ps]) := by
  refine ⟨qs, _, rfl, hg, ⟨fun _ => rfl, rfl, ?_, nofun, h.lawful⟩, rfl, rfl, rfl⟩
  rw [h.roles]
  exact List.mem_singleton_self _

theorem whole_wrap_parameters (h : Clean ps) :
    Whole (some .parameters) (Pieces.withRole .parameters (Pieces.wrap .parameters ps)) := by
  have he : Pieces.withRole .parameters (Pieces.wrap .parameters ps) =
      ps.takeWhile isGap ++ [node .parameters (some .parameters) (ps.dropWhile isGap)] := by
    simp [Pieces.withRole, Pieces.mapMain, Pieces.wrap, Shape.withRole]
  rw [he]
  exact whole_parameters h.lawful.gaps ⟨h.lawful.dropGaps, h.lawful.roles_dropGaps.trans h.roles⟩

theorem whole_wrap_clean (hk : k.Takes []) (h : Clean ps) : Whole none (Pieces.wrap k ps) :=
  whole_wrap_of hk h.lawful h.roles

end

/-! ## Patterns -/

/-- A node of another kind with the same roles, and with parts that play them, is as lawful. -/
theorem Lawful.retag {k k' : Kind} {r : Option Role} {ps qs : Pieces} (h : (node k r ps).Lawful)
    (hk : k ≠ .parameters) (hk' : k'.isWord = false ∧ k'.fields = k.fields ∧ k'.lead? = none)
    (hqs : AllLawful qs ∧ roles qs = roles ps) : (node k' r qs).Lawful := by
  obtain ⟨hr, -, hroles, -, -⟩ := h
  refine ⟨fun he => absurd (hr he) hk, hk'.1, ?_, fun l hl => ?_, hqs.1⟩
  · rw [hqs.2, hk'.2.1]
    exact hroles
  · simp [hk'.2.2] at hl

/-- The second piece can stand where the first one does. -/
structure StandsFor (q p : Shape) : Prop where
  lawful : q.Lawful
  role : q.role? = p.role?
  named : q.kind?.isSome = p.kind?.isSome
  gap : q.isGap = p.isGap

theorem StandsFor.solid {p q : Shape} {role : Option Role} (h : StandsFor q p)
    (hp : Solid role p) : Solid role q :=
  ⟨h.lawful, h.role.trans hp.role, h.named.trans hp.named, h.gap.trans hp.solid⟩

theorem StandsFor.cons {p q : Shape} {ps qs : Pieces} (h : StandsFor q p)
    (hqs : AllLawful qs ∧ roles qs = roles ps) :
    AllLawful (q :: qs) ∧ roles (q :: qs) = roles (p :: ps) := by
  refine ⟨⟨h.lawful, hqs.1⟩, ?_⟩
  rw [roles, List.filterMap_cons, h.role, ← roles, hqs.2, roles, roles, List.filterMap_cons]

mutual

/-- A pattern can stand where the expression does that it was read as. -/
theorem standsFor_toPattern : ∀ {p q : Shape}, p.toPattern = some q → p.Lawful → StandsFor q p
  | blank t, q, h, hl => by
    obtain rfl : blank t = q := by simpa [toPattern] using h
    exact ⟨hl, rfl, rfl, rfl⟩
  | mark t, q, h, hl => by
    obtain rfl : mark t = q := by simpa [toPattern] using h
    exact ⟨hl, rfl, rfl, rfl⟩
  | leaf k r c t, q, h, hl => by
    unfold toPattern at h
    split at h
    case h_5 =>
      obtain rfl := Option.some.inj h
      exact ⟨⟨rfl, hl.2.1, nofun⟩, rfl, rfl, rfl⟩
    case h_6 => cases h
    all_goals
      obtain rfl := Option.some.inj h
      exact ⟨hl, rfl, rfl, rfl⟩
  | node k r ps, q, h, hl => by
    unfold toPattern at h
    split at h
    case h_6 | h_7 =>
      obtain ⟨qs, hqs, rfl⟩ := Option.map_eq_some_iff.1 h
      have parts := lawful_toPatterns hqs hl.2.2.2.2
      exact ⟨hl.retag nofun ⟨rfl, rfl, rfl⟩ parts, rfl, rfl, rfl⟩
    case h_8 =>
      obtain ⟨qs, hqs, rfl⟩ := Option.map_eq_some_iff.1 h
      have parts := lawful_toPairParts hqs hl.2.2.2.2
      exact ⟨hl.retag nofun ⟨rfl, rfl, rfl⟩ parts, rfl, rfl, rfl⟩
    case h_9 =>
      split at h
      case h_1 qs hqs =>
        have parts := lawful_toPatterns hqs hl.2.2.2.2
        obtain ⟨-, hq⟩ := Option.ite_none_right_eq_some.1 h
        obtain rfl := Option.some.inj hq
        exact ⟨hl.retag nofun ⟨rfl, rfl, rfl⟩ parts, rfl, rfl, rfl⟩
      case h_2 => cases h
    case h_10 =>
      obtain ⟨-, hq⟩ := Option.ite_none_right_eq_some.1 h
      obtain rfl := Option.some.inj hq
      exact ⟨hl.retag nofun ⟨rfl, rfl, rfl⟩ ⟨hl.2.2.2.2, rfl⟩, rfl, rfl, rfl⟩
    case h_11 => cases h
    all_goals
      obtain rfl := Option.some.inj h
      exact ⟨hl, rfl, rfl, rfl⟩

theorem lawful_toPatterns : ∀ {ps qs : Pieces}, toPatterns ps = some qs → AllLawful ps →
    AllLawful qs ∧ roles qs = roles ps
  | [], qs, h, hl => by
    obtain rfl : [] = qs := by simpa [toPatterns] using h
    exact ⟨trivial, rfl⟩
  | p :: ps, qs, h, ⟨hp, hps⟩ => by
    unfold toPatterns at h
    split at h
    case h_1 q qs' hq hqs =>
      obtain rfl := Option.some.inj h
      exact (standsFor_toPattern hq hp).cons (lawful_toPatterns hqs hps)
    case h_2 => cases h

theorem lawful_toPairParts : ∀ {ps qs : Pieces}, toPairParts ps = some qs → AllLawful ps →
    AllLawful qs ∧ roles qs = roles ps
  | [], qs, h, hl => by
    obtain rfl : [] = qs := by simpa [toPairParts] using h
    exact ⟨trivial, rfl⟩
  | p :: ps, qs, h, ⟨hp, hps⟩ => by
    unfold toPairParts at h
    split at h
    case h_1 q qs' hq hqs =>
      obtain rfl := Option.some.inj h
      have first : StandsFor q p := by
        split at hq
        · exact standsFor_toPattern hq hp
        · obtain rfl := Option.some.inj hq
          exact ⟨hp, rfl, rfl, rfl⟩
      exact first.cons (lawful_toPairParts hqs hps)
    case h_2 => cases h

end

theorem standsFor_toTarget {p q : Shape} (h : p.toTarget = some q) (hp : p.Lawful) :
    StandsFor q p := by
  simp only [toTarget, Option.bind_eq_bind, Option.bind_eq_some_iff] at h
  obtain ⟨q', hq', hq⟩ := h
  obtain ⟨-, hq⟩ := Option.ite_none_right_eq_some.1 hq
  obtain rfl := Option.some.inj hq
  exact standsFor_toPattern hq' hp

end Shape

end ScriptAtlas.Script
