/-
What holds of every syntax tree, whatever the script. Two laws are stated here,
both of the pieces that a reader builds and of the nodes they are laid out as.

`Lawful`: words have no parts and are not empty, the parts of every other node
play the roles that its kind has, in order, and a call starts with what is
called and a member with its object.

`Laid`: the parts of a node follow one another inside it.

`lawful_place` and `laid_place` carry pieces over to nodes. That a script is
read into lawful pieces is shown in `ReaderLaws`. What is proved of scripts is
proved of every well-formed one (`Source.WellFormed`), wherever its tree is from.
-/
import ScriptAtlas.Script.Source

namespace ScriptAtlas.Script

namespace Kind

/-- Nodes of this kind are words, which have no parts. -/
def isWord : Kind → Bool
  | shebang | comment | htmlComment | identifier | undefinedWord | propertyName | privateName
  | shorthandName | labelName | thisWord | superWord | trueWord | falseWord | nullWord | importWord
  | number | stringPart | escape | regexPattern | regexFlags | optionalChain | shorthandPattern
  | markupText | entity => true
  | _ => false

/-- Nodes of this kind only separate others. -/
def isGap (k : Kind) : Bool := k == .comment || k == .htmlComment

/-- The roles that the parts of a node of this kind play, in the order of the parts. -/
def fields : Kind → List (List Role)
  | call => [[.callee, .arguments]]
  | member => [[.object, .property]]
  | subscript => [[.object]]
  | declarator => [[.name], [.name, .value]]
  | functionDeclaration | generatorDeclaration | method => [[.name, .parameters, .body]]
  | function | generator => [[.parameters, .body], [.name, .parameters, .body]]
  | arrow => [[.parameter, .body], [.parameters, .body]]
  | assignment | compoundAssignment | assignmentPattern | defaultedShorthand => [[.left, .right]]
  | pair | pairPattern => [[.value]]
  | field => [[.property], [.property, .value]]
  | classDeclaration => [[.name, .body]]
  | classExpression => [[.body], [.name, .body]]
  | forInStatement => [[.body], [.value, .body]]
  | forStatement | staticBlock | tryStatement | catchClause | finallyClause => [[.body]]
  | _ => [[]]

/-- The role of the part that a node of this kind starts with. -/
def lead? : Kind → Option Role
  | call => some .callee
  | member => some .object
  | _ => none

/-- No kind has a role that two parts play. -/
theorem nodup_of_mem_fields : ∀ k : Kind, ∀ rs ∈ k.fields, rs.Nodup := by
  intro k
  cases k <;> decide

end Kind

/-! ## Pieces -/

namespace Shape

/-- The roles that pieces play, in order. -/
def roles (ps : Pieces) : List Role := ps.filterMap role?

@[simp] theorem roles_nil : roles [] = [] := rfl

@[simp] theorem roles_append (ps qs : Pieces) : roles (ps ++ qs) = roles ps ++ roles qs :=
  List.filterMap_append

mutual

/-- The piece obeys the laws of its kind, and so does all that is in it. -/
def Lawful : Shape → Prop
  | blank _ | mark _ => True
  | leaf k r _ _ => k.isWord = true ∧ r ≠ some .parameters ∧ (k.isGap = true → r = none)
  | node k r ps => (r = some .parameters → k = .parameters) ∧ k.isWord = false ∧
      roles ps ∈ k.fields ∧ (∀ l, k.lead? = some l → ps.head?.bind role? = some l) ∧ AllLawful ps

/-- All the pieces obey the laws of their kinds. -/
def AllLawful : Pieces → Prop
  | [] => True
  | p :: ps => Lawful p ∧ AllLawful ps

end

theorem allLawful_iff : ∀ {ps : Pieces}, AllLawful ps ↔ ∀ p ∈ ps, p.Lawful
  | [] => by simp [AllLawful]
  | p :: ps => by simp [AllLawful, allLawful_iff]

@[simp] theorem allLawful_append {ps qs : Pieces} :
    AllLawful (ps ++ qs) ↔ AllLawful ps ∧ AllLawful qs := by
  simp only [allLawful_iff, List.mem_append]
  exact ⟨fun h => ⟨fun p hp => h p (.inl hp), fun p hp => h p (.inr hp)⟩,
    fun h p hp => hp.elim (h.1 p) (h.2 p)⟩

end Shape

/-! ## Nodes -/

namespace Node

mutual

/-- The node obeys the laws of its kind, and so does all that is in it. -/
def Lawful : Node → Prop
  | ⟨kind, role, start, stop, _, parts⟩ =>
    (role = some .parameters → kind = .parameters) ∧
    (if kind.isWord then parts = [] ∧ start.byte < stop.byte
    else parts.filterMap (·.role) ∈ kind.fields ∧
      ∀ l, kind.lead? = some l → ∃ m ms, parts = m :: ms ∧ m.role = some l ∧ m.start = start) ∧
    AllLawful parts

/-- All the nodes obey the laws of their kinds. -/
def AllLawful : List Node → Prop
  | [] => True
  | n :: ns => Lawful n ∧ AllLawful ns

end

mutual

/-- The parts of the node follow one another inside it, and so on down the tree. -/
def Laid : Node → Prop
  | ⟨_, _, start, stop, _, parts⟩ => AllLaid start.byte parts stop.byte

/-- The nodes follow one another between two bytes. -/
def AllLaid (first : Nat) : List Node → (last : Nat) → Prop
  | [], last => first ≤ last
  | n :: ns, last => first ≤ n.start.byte ∧ Laid n ∧ AllLaid n.stop.byte ns last

end

theorem allLawful_iff : ∀ {ns : List Node}, AllLawful ns ↔ ∀ n ∈ ns, n.Lawful
  | [] => by simp [AllLawful]
  | n :: ns => by simp [AllLawful, allLawful_iff]

theorem AllLaid.le : ∀ {ns : List Node} {a b : Nat}, AllLaid a ns b → a ≤ b
  | [], _, _, h => h
  | ⟨_, _, _, _, _, _⟩ :: _, _, _, ⟨hn, hl, hns⟩ =>
    Nat.le_trans hn (Nat.le_trans (AllLaid.le hl) (AllLaid.le hns))

theorem Laid.parts : ∀ {n : Node}, n.Laid → AllLaid n.start.byte n.parts n.stop.byte
  | ⟨_, _, _, _, _, _⟩, h => h

theorem Laid.start_le_stop {n : Node} (h : n.Laid) : n.start.byte ≤ n.stop.byte := h.parts.le

theorem AllLaid.append {ms : List Node} {b c : Nat} (hms : AllLaid b ms c) :
    ∀ {ns : List Node} {a : Nat}, AllLaid a ns b → AllLaid a (ns ++ ms) c
  | [], _, h => by
    cases ms with
    | nil => exact Nat.le_trans h hms
    | cons m ms => exact ⟨Nat.le_trans h hms.1, hms.2⟩
  | _ :: _, _, ⟨hn, hl, hns⟩ => ⟨hn, hl, hms.append hns⟩

/-! ### Parts -/

section

variable {n m m' : Node} {r : Role} {i j : Nat}

theorem nodup_roles (hl : n.Lawful) : (n.parts.filterMap (·.role)).Nodup := by
  obtain ⟨kind, role, start, stop, text, parts⟩ := n
  obtain ⟨-, hk, -⟩ := hl
  split at hk
  · simp [hk.1]
  · exact kind.nodup_of_mem_fields _ hk.1

theorem index_eq_of_role (hl : n.Lawful) (hi : n.parts[i]? = some m) (hj : n.parts[j]? = some m')
    (hm : m.role = some r) (hm' : m'.role = some r) : i = j := by
  have hd := List.pairwise_filterMap.1 (nodup_roles hl)
  obtain ⟨hlt, rfl⟩ := List.getElem?_eq_some_iff.1 hi
  obtain ⟨hlt', rfl⟩ := List.getElem?_eq_some_iff.1 hj
  rw [List.pairwise_iff_getElem] at hd
  rcases Nat.lt_trichotomy i j with h | h | h
  · exact absurd rfl (hd i j hlt hlt' h r hm r hm')
  · exact h
  · exact absurd rfl (hd j i hlt' hlt h r hm' r hm)

/-- Only a list of parameters plays the role of one. -/
theorem kind_of_parameters (hl : n.Lawful) (hr : n.role = some .parameters) :
    n.kind = .parameters := by
  obtain ⟨kind, role, start, stop, text, parts⟩ := n
  exact hl.1 hr

theorem lawful_part (hl : n.Lawful) (hi : n.parts[i]? = some m) : m.Lawful := by
  obtain ⟨kind, role, start, stop, text, parts⟩ := n
  exact allLawful_iff.1 hl.2.2 m (List.mem_of_getElem? hi)

theorem start_lt_stop (hl : n.Lawful) (hk : n.kind.isWord = true) : n.start.byte < n.stop.byte := by
  obtain ⟨kind, role, start, stop, text, parts⟩ := n
  have hw := hl.2.1
  rw [if_pos hk] at hw
  exact hw.2

/-- A part stands inside of its node, and its own parts are laid out as well. -/
theorem bounds_of_part : ∀ {ns : List Node} {i a b : Nat}, AllLaid a ns b → ns[i]? = some m →
    a ≤ m.start.byte ∧ m.Laid ∧ m.stop.byte ≤ b
  | n :: ns, 0, a, b, ⟨ha, hn, hns⟩, hm => by
    obtain rfl : n = m := by simpa using hm
    exact ⟨ha, hn, hns.le⟩
  | n :: ns, i + 1, a, b, ⟨ha, hn, hns⟩, hm => by
    obtain ⟨hlow, hlaid, hhigh⟩ := bounds_of_part hns (by simpa using hm)
    exact ⟨Nat.le_trans ha (Nat.le_trans hn.start_le_stop hlow), hlaid, hhigh⟩

theorem stop_le_start : ∀ {ns : List Node} {i j a b : Nat}, AllLaid a ns b → i < j →
    ns[i]? = some m → ns[j]? = some m' → m.stop.byte ≤ m'.start.byte
  | n :: ns, 0, j + 1, a, b, ⟨_, _, hns⟩, _, hm, hm' => by
    obtain rfl : n = m := by simpa using hm
    exact (bounds_of_part hns (by simpa using hm')).1
  | n :: ns, i + 1, j + 1, a, b, ⟨_, _, hns⟩, hij, hm, hm' =>
    stop_le_start hns (Nat.lt_of_succ_lt_succ hij) (by simpa using hm) (by simpa using hm')

end

end Node

/-- The tree is that of a whole script and obeys both laws. -/
structure Source.WellFormed (s : Source) : Prop where
  kind : s.root.kind = .program
  role : s.root.role = none
  lawful : s.root.Lawful
  laid : s.root.Laid

/-! ## Laying out -/

namespace Spot

theorem byte_lt_step (s : Spot) (c : Char) : s.byte < (s.step c).byte := by
  have hc := c.utf8Size_pos
  unfold step
  split <;> simp only <;> omega

theorem byte_le_after (s : Spot) (text : List Char) : s.byte ≤ (s.after text).byte := by
  induction text generalizing s with
  | nil => exact Nat.le_refl _
  | cons c text ih => exact Nat.le_trans (Nat.le_of_lt (s.byte_lt_step c)) (ih (s.step c))

theorem byte_lt_after_cons (s : Spot) (c : Char) (text : List Char) :
    s.byte < (s.after (c :: text)).byte :=
  Nat.lt_of_lt_of_le (s.byte_lt_step c) (byte_le_after (s.step c) text)

end Spot

namespace Shape

mutual

/-- **Nodes are laid out** one after another, and parts inside the node they are part of. -/
theorem laid_place : ∀ (p : Shape) (s : Spot), Node.AllLaid s.byte (place s p).1 (place s p).2.byte
  | blank t, s => s.byte_le_after t
  | mark t, s => s.byte_le_after t
  | leaf _ _ c t, s => ⟨Nat.le_refl _, s.byte_le_after (c :: t), Nat.le_refl _⟩
  | node _ _ ps, s => ⟨Nat.le_refl _, laid_placeAll ps s, Nat.le_refl _⟩

theorem laid_placeAll :
    ∀ (ps : Pieces) (s : Spot), Node.AllLaid s.byte (placeAll s ps).1 (placeAll s ps).2.byte
  | [], _ => Nat.le_refl _
  | p :: ps, s => (laid_placeAll ps (place s p).2).append (laid_place p s)

end

/-- A piece with a role is laid out as one node, in that role and from where the piece starts. -/
theorem place_of_role {p : Shape} {r : Role} (h : p.role? = some r) (s : Spot) :
    ∃ n, (place s p).1 = [n] ∧ n.role = some r ∧ n.start = s := by
  cases p with
  | blank t => simp [role?] at h
  | mark t => simp [role?] at h
  | leaf k r' c t => exact ⟨_, rfl, h, rfl⟩
  | node k r' ps => exact ⟨_, rfl, h, rfl⟩

theorem roles_place (p : Shape) (s : Spot) :
    (place s p).1.filterMap (·.role) = roles [p] := by
  cases p with
  | blank t => rfl
  | mark t => rfl
  | leaf k r c t => cases r <;> rfl
  | node k r ps => cases r <;> rfl

/-- The nodes play the roles that the pieces play. -/
theorem roles_placeAll (ps : Pieces) (s : Spot) :
    (placeAll s ps).1.filterMap (·.role) = roles ps := by
  induction ps generalizing s with
  | nil => rfl
  | cons p ps ih =>
    rw [show placeAll s (p :: ps) = ((place s p).1 ++ (placeAll (place s p).2 ps).1,
      (placeAll (place s p).2 ps).2) from rfl]
    rw [List.filterMap_append, roles_place, ih, ← roles_append, List.singleton_append]

mutual

/-- **Lawful pieces** are laid out as lawful nodes. -/
theorem lawful_place : ∀ (p : Shape) (s : Spot), p.Lawful → ∀ n ∈ (place s p).1, n.Lawful
  | blank _, _, _, _, hn => by simp [place] at hn
  | mark _, _, _, _, hn => by simp [place] at hn
  | leaf k r c t, s, ⟨hk, hr, _⟩, n, hn => by
    obtain rfl : n = { kind := k, role := r, start := s, stop := s.after (c :: t),
                       text := String.ofList (c :: t) } := by simpa [place] using hn
    simp only [Node.Lawful, hk, if_true]
    exact ⟨fun h => absurd h hr, ⟨trivial, s.byte_lt_after_cons c t⟩, trivial⟩
  | node k r ps, s, ⟨hr, hk, hroles, hlead, hps⟩, n, hn => by
    obtain rfl : n = { kind := k, role := r, start := s, stop := (placeAll s ps).2,
                       parts := (placeAll s ps).1 } := by simpa [place] using hn
    simp only [Node.Lawful, hk, Bool.false_eq_true, if_false]
    refine ⟨hr, ⟨by rwa [roles_placeAll], fun l hl => ?_⟩,
      Node.allLawful_iff.2 (lawful_placeAll ps s hps)⟩
    have hhead := hlead l hl
    cases ps with
    | nil => simp at hhead
    | cons p ps =>
      obtain ⟨m, hm, hrole, hstart⟩ := place_of_role hhead s
      exact ⟨m, (placeAll (place s p).2 ps).1, by simp [placeAll, hm], hrole, hstart⟩

theorem lawful_placeAll :
    ∀ (ps : Pieces) (s : Spot), AllLawful ps → ∀ n ∈ (placeAll s ps).1, n.Lawful
  | [], _, _, _, hn => by simp [placeAll] at hn
  | p :: ps, s, ⟨hp, hps⟩, n, hn => by
    rcases List.mem_append.1 hn with hn | hn
    · exact lawful_place p s hp n hn
    · exact lawful_placeAll ps _ hps n hn

end

end Shape

end ScriptAtlas.Script
