/-
Where a walk is when it does a thing. The scopes that are open at a point of
the trace are given by the tree alone: the innermost of them is the scope
around the place where the next thing is done.

`tidy_trace`: of the trace of any node, every site stands where it says, every
scope entered is left again with the scopes around it as they were, and no
scope is entered and no call is checked around a place where something was
done before.
-/
import Mathlib.Data.List.Induction
import ScriptAtlas.Proofs.TreeLaws
import ScriptAtlas.Proofs.WalkTrace

namespace ScriptAtlas

namespace Script

/-! ## Places and the scopes around them -/

theorem Trail.around_snoc (t : Trail) (i : Nat) : Trail.around (t ++ [i]) = t :: t.around := by
  simp only [Trail.around, List.length_append, List.length_singleton, List.range_succ,
    List.reverse_append, List.reverse_singleton, List.singleton_append, List.map_cons,
    List.take_left, List.cons.injEq, true_and]
  refine List.map_congr_left fun k hk => ?_
  have hk : k < t.length := by simpa using hk
  exact List.take_append_of_le_length (Nat.le_of_lt hk)

namespace Node

variable {root n m : Node} {here t u : Trail} {i : Nat}

theorem at?_append (n : Node) (t u : Trail) : n.at? (t ++ u) = (n.at? t).bind (·.at? u) := by
  induction t generalizing n with
  | nil => rfl
  | cons i t ih =>
    simp only [List.cons_append, at?]
    cases n.parts[i]? with
    | none => rfl
    | some m => exact ih m

theorem at?_part (hn : root.at? here = some n) (hm : n.parts[i]? = some m) :
    root.at? (here ++ [i]) = some m := by
  simp [at?_append, hn, at?, hm]

/-- The scope that the parts of the node at a place are in. -/
def scopeWithin (root : Node) (here : Trail) : Trail :=
  if root.opensAt here then here else root.scopeAround here

@[simp] theorem scopeAround_snoc (root : Node) (here : Trail) (i : Nat) :
    root.scopeAround (here ++ [i]) = root.scopeWithin here := by
  simp only [scopeAround, scopeWithin, Trail.around_snoc, List.find?_cons]
  cases root.opensAt here <;> rfl

theorem scopeWithin_of_opens (h : root.opensAt here = true) : root.scopeWithin here = here := by
  simp [scopeWithin, h]

theorem scopeWithin_of_not_opens (h : root.opensAt here = false) :
    root.scopeWithin here = root.scopeAround here := by
  simp [scopeWithin, h]

/-- The scope around a place lies on the way to it. -/
theorem scopeAround_leads (root : Node) (t : Trail) : root.scopeAround t <+: t := by
  induction t using List.reverseRecOn with
  | nil => exact List.prefix_rfl
  | append_singleton t i ih =>
    rw [scopeAround_snoc, scopeWithin]
    split
    · exact List.prefix_append t [i]
    · exact ih.trans (List.prefix_append t [i])

theorem scopeAround_ne (root : Node) (ht : t ≠ []) : root.scopeAround t ≠ t := by
  obtain ⟨u, i, rfl⟩ := (List.eq_nil_or_concat t).resolve_left ht
  rw [List.concat_eq_append, scopeAround_snoc, scopeWithin]
  intro h
  have hle : (if root.opensAt u then u else root.scopeAround u).length ≤ u.length := by
    split
    · exact Nat.le_refl _
    · exact (scopeAround_leads root u).length_le
  rw [h, List.length_append, List.length_singleton] at hle
  omega

/-- Of the scopes on the way to a place, the one around it is the innermost: a scope on the way that
is not the place itself is on the way to the scope around it. -/
theorem leads_scopeAround (hu : u = [] ∨ root.opensAt u = true) (h : u <+: t) (hne : u ≠ t) :
    u <+: root.scopeAround t := by
  induction t using List.reverseRecOn with
  | nil => exact absurd (List.prefix_nil.1 h) hne
  | append_singleton t i ih =>
    have h : u <+: t := (List.prefix_concat_iff.1 h).resolve_left (by simpa using hne)
    rw [scopeAround_snoc, scopeWithin]
    split
    case isTrue => exact h
    case isFalse ho =>
      by_cases hut : u = t
      · subst hut
        rcases hu with rfl | hu
        · exact List.nil_prefix
        · exact absurd hu ho
      · exact ih h hut

theorem scopeAround_opens (root : Node) (t : Trail) :
    root.scopeAround t = [] ∨ root.opensAt (root.scopeAround t) = true := by
  simp only [scopeAround]
  cases h : t.around.find? root.opensAt with
  | none => exact .inl rfl
  | some u => exact .inr (List.find?_some h)

theorem opensAt_eq (hn : root.at? here = some n) : root.opensAt here = n.kind.hasScope := by
  simp [opensAt, hn]

/-- A node that is neither a block nor a function opens no scope. -/
theorem opensAt_eq_false (hn : root.at? here = some n) (hk : n.kind.hasScope = false) :
    root.opensAt here = false := by
  rw [opensAt_eq hn, hk]

end Node

end Script

namespace Diagnostic

open Script

/-! ## Steps between scopes -/

/-- Something here, or further down, is looked at with the scopes around it. -/
def Event.looksAround : Event → Bool
  | .enter | .check _ => true
  | .leave | .declare _ _ => false

/-- The node is one that a name is declared at. -/
def Declares (n : Node) (name : String) : Prop :=
  n.text = name ∨ n.kind = .declarator ∧ (n.child? .name).map (·.text) = some name

/-- At the place of the site is what its event is about. -/
def Site.Stands (root : Node) (site : Site) : Prop :=
  match site.event with
  | .enter | .leave => root.opensAt site.trail = true
  | .declare name _ => ∃ n, root.at? site.trail = some n ∧ Declares n name
  | .check call => root.at? site.trail = some call

/-- What a site makes of the open scopes, the innermost first. All but `leave` are done right inside
the innermost. -/
inductive ScopeStep (root : Node) : List Trail → Site → List Trail → Prop
  | enter {here scope : Trail} {outer : List Trail} (hne : here ≠ [])
      (h : root.scopeAround here = scope) :
      ScopeStep root (scope :: outer) ⟨here, .enter⟩ (here :: scope :: outer)
  | leave {here scope : Trail} {outer : List Trail} :
      ScopeStep root (here :: scope :: outer) ⟨here, .leave⟩ (scope :: outer)
  | declare {here scope : Trail} {outer : List Trail} (name : String) (form : Form)
      (h : root.scopeAround here = scope) :
      ScopeStep root (scope :: outer) ⟨here, .declare name form⟩ (scope :: outer)
  | check {here scope : Trail} {outer : List Trail} (call : Node)
      (h : root.scopeAround here = scope) :
      ScopeStep root (scope :: outer) ⟨here, .check call⟩ (scope :: outer)

/-- What sites make of the open scopes, one after another. -/
inductive ScopePath (root : Node) : List Trail → List Site → List Trail → Prop
  | nil {scopes : List Trail} : ScopePath root scopes [] scopes
  | cons {scopes next last : List Trail} {site : Site} {sites : List Site} :
      ScopeStep root scopes site next → ScopePath root next sites last →
        ScopePath root scopes (site :: sites) last

theorem ScopePath.append {root : Node} {first rest : List Site} {a b c : List Trail}
    (h : ScopePath root a first b) (h' : ScopePath root b rest c) :
    ScopePath root a (first ++ rest) c := by
  induction h with
  | nil => exact h'
  | cons step _ ih => exact .cons step (ih h')

theorem ScopePath.split {root : Node} {a c : List Trail} :
    ∀ {first rest : List Site}, ScopePath root a (first ++ rest) c →
      ∃ b, ScopePath root a first b ∧ ScopePath root b rest c
  | [], _, h => ⟨a, .nil, h⟩
  | _ :: _, _, .cons step h => by
    obtain ⟨b, hb, hc⟩ := ScopePath.split h
    exact ⟨b, .cons step hb, hc⟩

/-- The place is in one of these parts of the node at `here`, or is one of them. -/
def Under (here : Trail) (parts : Nat → Prop) (t : Trail) : Prop :=
  ∃ j, parts j ∧ here ++ [j] <+: t

section

variable {here t u : Trail} {js ks : Nat → Prop}

theorem Under.below (h : Under here js t) : here <+: t := by
  obtain ⟨j, _, h⟩ := h
  exact (List.prefix_append here [j]).trans h

theorem Under.mono (h : Under here js t) (hjk : ∀ j, js j → ks j) : Under here ks t := by
  obtain ⟨j, hj, h⟩ := h
  exact ⟨j, hjk j hj, h⟩

theorem Under.not_around_here (h : Under here js t) : ¬ t <+: here := by
  obtain ⟨j, _, h⟩ := h
  intro ht
  have hle := (h.trans ht).length_le
  rw [List.length_append, List.length_singleton] at hle
  omega

/-- Nothing in one part is around something in another. -/
theorem Under.apart (hd : ∀ j, js j → ¬ ks j) (ht : Under here js t) (hu : Under here ks u) :
    ¬ u <+: t := by
  obtain ⟨j, hj, ht⟩ := ht
  obtain ⟨k, hk, hu⟩ := hu
  intro h
  have hjk : here ++ [j] <+: here ++ [k] :=
    List.prefix_of_prefix_length_le ht (hu.trans h) (by simp)
  have hjk : j = k := by simpa using hjk.eq_of_length (by simp)
  subst hjk
  exact hd j hj hk

end

/-! ## Tidy traces -/

/-- The sites lie where `within` allows, each stands where it says, all that is entered is left, and
none that looks around has an earlier one below it. -/
structure Tidy (root : Node) (within : Trail → Prop) (scope : Trail) (sites : List Site) : Prop where
  within : ∀ site ∈ sites, within site.trail
  stands : ∀ site ∈ sites, site.Stands root
  path : ∀ outer, ScopePath root (scope :: outer) sites (scope :: outer)
  fresh : sites.Pairwise fun earlier later =>
    later.event.looksAround = true → ¬ later.trail <+: earlier.trail

/-- The sites are declarations right inside one scope. -/
def Names (root : Node) (within : Trail → Prop) (scope : Trail) (sites : List Site) : Prop :=
  ∀ site ∈ sites, within site.trail ∧ root.scopeAround site.trail = scope ∧ site.Stands root ∧
    ∃ name form, site.event = .declare name form

section

variable {root : Node} {p q : Trail → Prop} {here scope : Trail} {a b sites : List Site}

theorem Names.nil : Names root p scope [] := by simp [Names]

theorem Names.append (ha : Names root p scope a) (hb : Names root p scope b) :
    Names root p scope (a ++ b) := by
  intro site h
  rcases List.mem_append.1 h with h | h
  · exact ha site h
  · exact hb site h

theorem Names.mono (h : Names root p scope sites) (hpq : ∀ t, p t → q t) :
    Names root q scope sites := by
  intro site hs
  obtain ⟨hp, hrest⟩ := h site hs
  exact ⟨hpq _ hp, hrest⟩

theorem Names.path (h : Names root p scope sites) (outer : List Trail) :
    ScopePath root (scope :: outer) sites (scope :: outer) := by
  induction sites with
  | nil => exact .nil
  | cons site sites ih =>
    obtain ⟨_, hsc, _, name, form, he⟩ := h site (by simp)
    obtain ⟨place, event⟩ := site
    cases he
    exact .cons (.declare name form hsc) (ih fun s hs => h s (by simp [hs]))

theorem Names.not_looksAround (h : Names root p scope sites) {site : Site} (hs : site ∈ sites) :
    site.event.looksAround = false := by
  obtain ⟨_, _, _, name, form, he⟩ := h site hs
  rw [he]; rfl

theorem Tidy.nil : Tidy root p scope [] :=
  ⟨by simp, by simp, fun _ => .nil, .nil⟩

theorem Tidy.mono (h : Tidy root p scope sites) (hpq : ∀ t, p t → q t) :
    Tidy root q scope sites :=
  ⟨fun site hs => hpq _ (h.within site hs), h.stands, h.path, h.fresh⟩

/-- One tidy trace after another, when the second looks at nothing around what the first does. -/
theorem Tidy.append (ha : Tidy root p scope a) (hb : Tidy root p scope b)
    (hd : ∀ x ∈ a, ∀ y ∈ b, y.event.looksAround = true → ¬ y.trail <+: x.trail) :
    Tidy root p scope (a ++ b) where
  within site h := (List.mem_append.1 h).elim (ha.within site) (hb.within site)
  stands site h := (List.mem_append.1 h).elim (ha.stands site) (hb.stands site)
  path outer := (ha.path outer).append (hb.path outer)
  fresh := List.pairwise_append.2 ⟨ha.fresh, hb.fresh, hd⟩

theorem Names.tidy (h : Names root p scope sites) : Tidy root p scope sites where
  within site hs := (h site hs).1
  stands site hs := (h site hs).2.2.1
  path := h.path
  fresh := List.pairwise_of_forall_mem_list fun _ _ y hy hl => by
    simp [h.not_looksAround hy] at hl

theorem Tidy.append_names (ha : Tidy root p scope a) (hb : Names root p scope b) :
    Tidy root p scope (a ++ b) :=
  ha.append hb.tidy fun _ _ y hy hl => by simp [hb.not_looksAround hy] at hl

/-- One tidy trace after another, from different parts of a node. -/
theorem Tidy.append_parts {js ks : Nat → Prop} (ha : Tidy root (Under here js) scope a)
    (hb : Tidy root (Under here ks) scope b) (hd : ∀ j, js j → ¬ ks j) :
    Tidy root (Under here fun j => js j ∨ ks j) scope (a ++ b) :=
  (ha.mono fun _ h => h.mono fun _ => .inl).append (hb.mono fun _ h => h.mono fun _ => .inr)
    fun x hx y hy _ => (ha.within x hx).apart hd (hb.within y hy)

/-- What is done between entering and leaving a scope. -/
theorem Tidy.enter {js : Nat → Prop} (h : Tidy root (Under here js) here sites) (hne : here ≠ [])
    (ho : root.opensAt here = true) :
    Tidy root (here <+: ·) (root.scopeAround here)
      (⟨here, .enter⟩ :: sites ++ [⟨here, .leave⟩]) where
  within := by
    intro site hs
    simp only [List.cons_append, List.mem_cons, List.mem_append, List.not_mem_nil, or_false] at hs
    rcases hs with rfl | hs | rfl
    · exact List.prefix_rfl
    · exact (h.within site hs).below
    · exact List.prefix_rfl
  stands := by
    intro site hs
    simp only [List.cons_append, List.mem_cons, List.mem_append, List.not_mem_nil, or_false] at hs
    rcases hs with rfl | hs | rfl
    · exact ho
    · exact h.stands site hs
    · exact ho
  path outer := .cons (.enter hne rfl) ((h.path _).append (.cons .leave .nil))
  fresh := by
    simp only [List.cons_append, List.pairwise_cons, List.pairwise_append, List.mem_append,
      List.mem_singleton]
    refine ⟨?_, h.fresh, by simp, by rintro _ _ _ rfl hl; simp [Event.looksAround] at hl⟩
    rintro site (hs | rfl) hl
    · exact (h.within site hs).not_around_here
    · simp [Event.looksAround] at hl

/-- What is done in a call, after it is checked. -/
theorem Tidy.check {js : Nat → Prop} {call : Node}
    (h : Tidy root (Under here js) (root.scopeAround here) sites) (hc : root.at? here = some call) :
    Tidy root (here <+: ·) (root.scopeAround here) (⟨here, .check call⟩ :: sites) where
  within := by
    rintro site (_ | ⟨_, hs⟩)
    · exact List.prefix_rfl
    · exact (h.within site hs).below
  stands := by
    rintro site (_ | ⟨_, hs⟩)
    · exact hc
    · exact h.stands site hs
  path outer := .cons (.check call rfl) (h.path outer)
  fresh := List.pairwise_cons.2 ⟨fun site hs _ => (h.within site hs).not_around_here, h.fresh⟩

/-- What is done in a part, seen from the node around it. -/
theorem Tidy.part {js : Nat → Prop} {i : Nat} (hi : js i)
    (h : Tidy root (here ++ [i] <+: ·) (root.scopeAround (here ++ [i])) sites) :
    Tidy root (Under here js) (root.scopeWithin here) sites := by
  rw [Node.scopeAround_snoc] at h
  exact h.mono fun _ ht => ⟨i, hi, ht⟩

theorem Names.part {js : Nat → Prop} {i : Nat} (hi : js i)
    (h : Names root (here ++ [i] <+: ·) (root.scopeAround (here ++ [i])) sites) :
    Names root (Under here js) (root.scopeWithin here) sites := by
  rw [Node.scopeAround_snoc] at h
  exact h.mono fun _ ht => ⟨i, hi, ht⟩

/-- What is done in the parts of a node that opens no scope. -/
theorem Tidy.whole {js : Nat → Prop} (ho : root.opensAt here = false)
    (h : Tidy root (Under here js) (root.scopeWithin here) sites) :
    Tidy root (here <+: ·) (root.scopeAround here) sites := by
  rw [Node.scopeWithin_of_not_opens ho] at h
  exact h.mono fun _ => Under.below

theorem Names.whole {js : Nat → Prop} (ho : root.opensAt here = false)
    (h : Names root (Under here js) (root.scopeWithin here) sites) :
    Names root (here <+: ·) (root.scopeAround here) sites := by
  rw [Node.scopeWithin_of_not_opens ho] at h
  exact h.mono fun _ => Under.below

/-- What is done in a part and then in the parts after it. -/
theorem Tidy.cons_part {i : Nat} (ha : Tidy root (Under here (· = i)) scope a)
    (hb : Tidy root (Under here (i + 1 ≤ ·)) scope b) :
    Tidy root (Under here (i ≤ ·)) scope (a ++ b) :=
  (ha.append_parts hb (by omega)).mono fun _ h => h.mono (by omega)

end

/-! ## The trace of a tree -/

theorem part_of_drop {ns ms : List Node} {i : Nat} {m : Node} (h : ns.drop i = m :: ms) :
    ns[i]? = some m ∧ ns.drop (i + 1) = ms := by
  constructor
  · rw [← List.head?_drop, h, List.head?_cons]
  · rw [← List.tail_drop, h, List.tail_cons]

/-- The part with this number plays the role. -/
def Plays (n : Node) (r : Role) (j : Nat) : Prop := (n.parts[j]?).bind (·.role) = some r

theorem Plays.of_part {n m : Node} {r : Role} {j : Nat} (hm : n.parts[j]? = some m)
    (hr : m.role = some r) : Plays n r j := by
  simp [Plays, hm, hr]

theorem Plays.ne {n : Node} {r r' : Role} {j : Nat} (hne : r ≠ r') (h : Plays n r j) :
    ¬ Plays n r' j := by
  intro h'
  rw [Plays, h] at h'
  exact hne (Option.some.inj h')

section

variable {root : Node}

mutual

theorem names_patternSites (form : Form) {here : Trail} :
    ∀ n : Node, root.at? here = some n →
      Names root (here <+: ·) (root.scopeAround here) (patternSites form here n)
  | ⟨kind, role, start, stop, text, parts⟩, hn => by
    have single : Names root (here <+: ·) (root.scopeAround here) [⟨here, .declare text form⟩] := by
      simp only [Names, List.mem_singleton, forall_eq]
      exact ⟨List.prefix_rfl, trivial, ⟨_, hn, .inl rfl⟩, text, form, rfl⟩
    cases kind <;> simp only [patternSites]
    case identifier | shorthandPattern => exact single
    case arrayPattern | objectPattern | restPattern =>
      exact (names_patternSitesAll form hn 0 parts rfl).whole (Node.opensAt_eq_false hn rfl)
    case pairPattern | assignmentPattern | defaultedShorthand =>
      exact (names_patternSitesOf form _ hn 0 parts rfl).whole (Node.opensAt_eq_false hn rfl)
    all_goals exact .nil

theorem names_patternSitesAll (form : Form) {here : Trail} {n : Node}
    (hn : root.at? here = some n) (i : Nat) :
    ∀ ns : List Node, n.parts.drop i = ns →
      Names root (Under here fun _ => True) (root.scopeWithin here) (patternSitesAll form here i ns)
  | [], _ => .nil
  | m :: ms, hs => by
    obtain ⟨hm, hms⟩ := part_of_drop hs
    exact (Names.part trivial (names_patternSites form m (Node.at?_part hn hm))).append
      (names_patternSitesAll form hn (i + 1) ms hms)

theorem names_patternSitesOf (form : Form) (r : Role) {here : Trail} {n : Node}
    (hn : root.at? here = some n) (i : Nat) :
    ∀ ns : List Node, n.parts.drop i = ns →
      Names root (Under here fun _ => True) (root.scopeWithin here)
        (patternSitesOf form r here i ns)
  | [], _ => .nil
  | m :: ms, hs => by
    obtain ⟨hm, hms⟩ := part_of_drop hs
    simp only [patternSitesOf]
    split
    · exact Names.part trivial (names_patternSites form m (Node.at?_part hn hm))
    · exact names_patternSitesOf form r hn (i + 1) ms hms

end

mutual

theorem names_parameterSites {here : Trail} :
    ∀ n : Node, root.at? here = some n →
      Names root (here <+: ·) (root.scopeAround here) (parameterSites here n)
  | ⟨kind, role, start, stop, text, parts⟩, hn => by
    cases kind <;> simp only [parameterSites]
    case identifier =>
      simp only [Names, List.mem_singleton, forall_eq]
      exact ⟨List.prefix_rfl, trivial, ⟨_, hn, .inl rfl⟩, text, .parameter, rfl⟩
    case restPattern =>
      exact (names_parameterSitesAll hn 0 parts rfl).whole (Node.opensAt_eq_false hn rfl)
    all_goals exact names_patternSites .patternParameter _ hn

theorem names_parameterSitesAll {here : Trail} {n : Node} (hn : root.at? here = some n) (i : Nat) :
    ∀ ns : List Node, n.parts.drop i = ns →
      Names root (Under here fun _ => True) (root.scopeWithin here) (parameterSitesAll here i ns)
  | [], _ => .nil
  | m :: ms, hs => by
    obtain ⟨hm, hms⟩ := part_of_drop hs
    exact (Names.part trivial (names_parameterSites m (Node.at?_part hn hm))).append
      (names_parameterSitesAll hn (i + 1) ms hms)

end

theorem names_parameterSitesOf (r : Role) {here : Trail} {n : Node} (hn : root.at? here = some n)
    (i : Nat) :
    ∀ ns : List Node, n.parts.drop i = ns →
      Names root (Under here (Plays n r)) (root.scopeWithin here) (parameterSitesOf r here i ns)
  | [], _ => .nil
  | m :: ms, hs => by
    obtain ⟨hm, hms⟩ := part_of_drop hs
    simp only [parameterSitesOf]
    split
    case isTrue hr =>
      exact Names.part (Plays.of_part hm hr) (names_parameterSites m (Node.at?_part hn hm))
    case isFalse => exact names_parameterSitesOf r hn (i + 1) ms hms

theorem names_declaratorSites (declared : Option TypeInfo) {here : Trail} {n : Node}
    (hn : root.at? here = some n) (hk : n.kind = .declarator) :
    Names root (here <+: ·) (root.scopeAround here) (declaratorSites declared here n) := by
  unfold declaratorSites
  split
  · exact .nil
  · rename_i name hname
    split
    · simp only [Names, List.mem_singleton, forall_eq]
      exact ⟨List.prefix_rfl, trivial, ⟨n, hn, .inr ⟨hk, by rw [hname]; rfl⟩⟩, _, _, rfl⟩
    · exact (names_patternSitesOf _ .name hn 0 n.parts rfl).whole
        (Node.opensAt_eq_false hn (by rw [hk]; rfl))

mutual

/-- **The trace of a lawful node** is tidy, in a tree whose root is no scope of its own. -/
theorem tidy_trace (hr : root.opensAt [] = false) (s : Source) {here : Trail} :
    ∀ n : Node, root.at? here = some n → n.Lawful →
      Tidy root (here <+: ·) (root.scopeAround here) (trace s here n)
  | ⟨kind, role, start, stop, text, parts⟩, hn, ⟨_, _, hl⟩ => by
    have ho := Node.opensAt_eq hn
    have hne (h : root.opensAt here = true) : here ≠ [] := by
      rintro rfl
      simp [hr] at h
    have plain (h : root.opensAt here = false) :
        Tidy root (here <+: ·) (root.scopeAround here) (traceAll s here 0 parts) :=
      (tidy_traceAll hr s hn 0 parts rfl hl).whole h
    have function (h : root.opensAt here = true) :
        Tidy root (here <+: ·) (root.scopeAround here)
          (⟨here, .enter⟩ :: (parameterSitesOf .parameter here 0 parts ++
            traceParameters s here 0 parts ++ traceRole s .body here 0 parts) ++
            [⟨here, .leave⟩]) := by
      have single := (names_parameterSitesOf .parameter hn 0 parts rfl).tidy
      have params := tidy_traceParameters hr s hn 0 parts rfl hl
      have body := tidy_traceRole hr s .body hn 0 parts rfl hl
      rw [Node.scopeWithin_of_opens h] at single params body
      exact ((single.append_parts params fun _ => Plays.ne (by decide)).append_parts body
        fun _ hj => hj.elim (Plays.ne (by decide)) (Plays.ne (by decide))).enter (hne h) h
    cases kind <;> simp only [trace]
    case block =>
      have body := tidy_traceAll hr s hn 0 parts rfl hl
      rw [Node.scopeWithin_of_opens ho] at body
      exact body.enter (hne ho) ho
    case varDeclaration | lexicalDeclaration =>
      exact (tidy_traceDeclarators hr s _ hn 0 parts rfl hl).whole ho
    case functionDeclaration | generatorDeclaration | function | generator | arrow | method =>
      exact function ho
    case call =>
      have rest := tidy_traceAll hr s hn 0 parts rfl hl
      rw [Node.scopeWithin_of_not_opens ho] at rest
      exact rest.check hn
    all_goals exact plain ho
  termination_by structural n => n

theorem tidy_traceAll (hr : root.opensAt [] = false) (s : Source) {here : Trail} {n : Node}
    (hn : root.at? here = some n) (i : Nat) :
    ∀ ns : List Node, n.parts.drop i = ns → Node.AllLawful ns →
      Tidy root (Under here (i ≤ ·)) (root.scopeWithin here) (traceAll s here i ns)
  | [], _, _ => .nil
  | m :: ms, hs, ⟨hl, hls⟩ => by
    obtain ⟨hm, hms⟩ := part_of_drop hs
    refine Tidy.cons_part ?_ (tidy_traceAll hr s hn (i + 1) ms hms hls)
    split
    · exact .nil
    · exact Tidy.part rfl (tidy_trace hr s m (Node.at?_part hn hm) hl)
  termination_by structural ns => ns

theorem tidy_traceRole (hr : root.opensAt [] = false) (s : Source) (r : Role) {here : Trail}
    {n : Node} (hn : root.at? here = some n) (i : Nat) :
    ∀ ns : List Node, n.parts.drop i = ns → Node.AllLawful ns →
      Tidy root (Under here (Plays n r)) (root.scopeWithin here) (traceRole s r here i ns)
  | [], _, _ => .nil
  | m :: ms, hs, ⟨hl, hls⟩ => by
    obtain ⟨hm, hms⟩ := part_of_drop hs
    simp only [traceRole]
    split
    case isTrue h =>
      exact Tidy.part (Plays.of_part hm h) (tidy_trace hr s m (Node.at?_part hn hm) hl)
    case isFalse => exact tidy_traceRole hr s r hn (i + 1) ms hms hls
  termination_by structural ns => ns

theorem tidy_traceDeclarators (hr : root.opensAt [] = false) (s : Source)
    (declared : Option TypeInfo) {here : Trail} {n : Node} (hn : root.at? here = some n) (i : Nat) :
    ∀ ns : List Node, n.parts.drop i = ns → Node.AllLawful ns →
      Tidy root (Under here (i ≤ ·)) (root.scopeWithin here) (traceDeclarators s declared here i ns)
  | [], _, _ => .nil
  | ⟨kind, role, start, stop, text, parts⟩ :: ms, hs, ⟨⟨_, _, hl⟩, hls⟩ => by
    obtain ⟨hm, hms⟩ := part_of_drop hs
    have hm := Node.at?_part hn hm
    refine Tidy.cons_part ?_ (tidy_traceDeclarators hr s declared hn (i + 1) ms hms hls)
    split
    case isTrue hk =>
      subst hk
      have value := tidy_traceRole hr s .value hm 0 parts rfl hl
      exact Tidy.part rfl ((value.whole (Node.opensAt_eq_false hm rfl)).append_names
        (names_declaratorSites declared hm rfl))
    case isFalse => exact .nil
  termination_by structural ns => ns

theorem tidy_traceParameters (hr : root.opensAt [] = false) (s : Source) {here : Trail} {n : Node}
    (hn : root.at? here = some n) (i : Nat) :
    ∀ ns : List Node, n.parts.drop i = ns → Node.AllLawful ns →
      Tidy root (Under here (Plays n .parameters)) (root.scopeWithin here)
        (traceParameters s here i ns)
  | [], _, _ => .nil
  | ⟨kind, role, start, stop, text, parts⟩ :: ms, hs, ⟨⟨hk, _, hl⟩, hls⟩ => by
    obtain ⟨hm, hms⟩ := part_of_drop hs
    simp only [traceParameters]
    split
    case isTrue h =>
      have hm' := Node.at?_part hn hm
      exact Tidy.part (Plays.of_part hm h)
        ((tidy_traceParameterList hr s hm' 0 parts rfl hl).whole
          (Node.opensAt_eq_false hm' (by rw [hk h]; rfl)))
    case isFalse => exact tidy_traceParameters hr s hn (i + 1) ms hms hls
  termination_by structural ns => ns

theorem tidy_traceParameterList (hr : root.opensAt [] = false) (s : Source) {here : Trail}
    {n : Node} (hn : root.at? here = some n) (i : Nat) :
    ∀ ns : List Node, n.parts.drop i = ns → Node.AllLawful ns →
      Tidy root (Under here (i ≤ ·)) (root.scopeWithin here) (traceParameterList s here i ns)
  | [], _, _ => .nil
  | ⟨kind, role, start, stop, text, parts⟩ :: ms, hs, ⟨⟨_, _, hl⟩, hls⟩ => by
    obtain ⟨hm, hms⟩ := part_of_drop hs
    have hm := Node.at?_part hn hm
    refine Tidy.cons_part ?_ (tidy_traceParameterList hr s hn (i + 1) ms hms hls)
    cases kind
    case comment => exact .nil
    case assignmentPattern =>
      have right := tidy_traceRole hr s .right hm 0 parts rfl hl
      have left := names_parameterSitesOf .left hm 0 parts rfl
      have ho : root.opensAt (here ++ [i]) = false := Node.opensAt_eq_false hm rfl
      exact Tidy.part rfl ((right.whole ho).append_names (left.whole ho))
    all_goals exact Tidy.part rfl (names_parameterSites _ hm).tidy
  termination_by structural ns => ns

end

end

end Diagnostic

end ScriptAtlas
