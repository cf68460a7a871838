/-
Which calls a walk checks. The walk goes into all parts of most nodes, but of
declarations and functions it takes only what it needs (`blindAt`). A call is
checked exactly once if no such place is on the way to it, and never if there is
one: `checks_calls_in_sight`. So a call in the default value of a pattern is
checked in an expression, but not in a declaration or among parameters.
-/
import Mathlib.Data.List.Infix
import ScriptAtlas.Proofs.ScopeResolution

namespace ScriptAtlas

namespace Script

/-- Declarations of variables. -/
def Kind.isDeclaration : Kind → Bool
  | varDeclaration | lexicalDeclaration => true
  | _ => false

namespace Node

/-- Part `m` of `n`, which is part of `around`, is passed over: what stands beside the declarators of
a declaration, all of a declarator but its value, all of a function but its parameters and its body,
parameters without a default value, and all of the others but that value. -/
def passesOver (around n m : Node) : Bool :=
  n.kind.isDeclaration && m.kind != .declarator ||
  around.kind.isDeclaration && n.kind == .declarator && m.role != some .value ||
  n.kind.isFunction && m.role != some .parameters && m.role != some .body ||
  n.role == some .parameters && m.kind != .assignmentPattern ||
  around.role == some .parameters && n.kind == .assignmentPattern && m.role != some .right

/-- The node at this place is passed over. -/
def blindAt (root : Node) (t : Trail) : Bool :=
  match root.at? t.dropLast.dropLast, root.at? t.dropLast, root.at? t with
  | some around, some n, some m => around.passesOver n m
  | _, _, _ => false

/-- Nothing is passed over on the way to this place. -/
def inSight (root : Node) (t : Trail) : Bool := t.inits.all fun u => !root.blindAt u

end Node

end Script

namespace Diagnostic

open Script

/-! ## Calls that can be seen from a place -/

section

variable {root n m c : Node} {here t u : Trail} {i : Nat}

/-- Nothing is passed over on the way from one place to another. -/
def Clear (root : Node) (here u : Trail) : Prop :=
  ∀ v, v <+: u → v ≠ [] → root.blindAt (here ++ v) = false

theorem clear_nil : Clear root here [] := fun _ hv hne => absurd (List.prefix_nil.1 hv) hne

theorem clear_cons :
    Clear root here (i :: u) ↔ root.blindAt (here ++ [i]) = false ∧ Clear root (here ++ [i]) u := by
  constructor
  · intro h
    refine ⟨h [i] (by simp) (by simp), fun v hv _ => ?_⟩
    simpa using h (i :: v) (by simpa using hv) (by simp)
  · rintro ⟨hi, hu⟩ v hv hne
    obtain ⟨j, v, rfl⟩ := List.exists_cons_of_ne_nil hne
    obtain ⟨rfl, hvu⟩ := List.cons_prefix_cons.1 hv
    by_cases hv' : v = []
    · simpa [hv'] using hi
    · simpa using hu v hvu hv'

/-- The call `c` at `t` can be seen from the node at `here`. -/
def Seen (root : Node) (here : Trail) (n : Node) (t : Trail) (c : Node) : Prop :=
  ∃ u, t = here ++ u ∧ n.at? u = some c ∧ c.kind = .call ∧ Clear root here u

/-- What can be seen from a node is the node itself or can be seen from a part that is not passed
over. -/
theorem seen_iff : Seen root here n t c ↔ (n.kind = .call ∧ t = here ∧ c = n) ∨
    ∃ i m, n.parts[i]? = some m ∧ root.blindAt (here ++ [i]) = false ∧ Seen root (here ++ [i]) m t c := by
  constructor
  · rintro ⟨u, rfl, hc, hk, hclear⟩
    cases u with
    | nil =>
      obtain rfl : n = c := Option.some.inj hc
      exact .inl ⟨hk, by simp, rfl⟩
    | cons i u =>
      obtain ⟨hi, hu⟩ := clear_cons.1 hclear
      simp only [Node.at?] at hc
      split at hc
      · rename_i m hm
        exact .inr ⟨i, m, hm, hi, u, by simp, hc, hk, hu⟩
      · cases hc
  · rintro (⟨hk, rfl, rfl⟩ | ⟨i, m, hm, hi, u, rfl, hc, hk, hu⟩)
    · exact ⟨[], by simp, rfl, hk, clear_nil⟩
    · exact ⟨i :: u, by simp, by simp [Node.at?, hm, hc], hk, clear_cons.2 ⟨hi, hu⟩⟩

theorem not_seen_of_isWord (hl : m.Lawful) (hk : m.kind.isWord = true) : ¬ Seen root here m t c := by
  obtain ⟨kind, role, start, stop, text, parts⟩ := m
  obtain ⟨-, hword, -⟩ := hl
  simp only at hk
  rw [if_pos hk] at hword
  rw [seen_iff]
  rintro (⟨rfl, -, -⟩ | ⟨i, m, hm, -⟩)
  · cases hk
  · simp [hword.1] at hm

end

/-! ## Where parts are passed over -/

section

variable {root around n m w : Node} {here : Trail} {i j : Nat}

/-- Which parts are passed over depends on the kind of the node only. -/
def Regular (root : Node) (here : Trail) (n : Node) : Prop :=
  ∀ i m, n.parts[i]? = some m → root.blindAt (here ++ [i]) =
    (n.kind.isDeclaration && m.kind != .declarator ||
      n.kind.isFunction && m.role != some .parameters && m.role != some .body)

theorem blindAt_part (hn : root.at? here = some n) (hm : n.parts[i]? = some m)
    (hw : m.parts[j]? = some w) : root.blindAt (here ++ [i] ++ [j]) = n.passesOver m w := by
  have hm := Node.at?_part hn hm
  have hw := Node.at?_part hm hw
  simp only [Node.blindAt, List.dropLast_concat, hn, hm, hw]

theorem regular_part (hn : root.at? here = some n) (hm : n.parts[i]? = some m)
    (hd : n.kind.isDeclaration = false) (hr : n.role ≠ some .parameters)
    (hr' : m.role ≠ some .parameters) : Regular root (here ++ [i]) m := by
  intro j w hw
  rw [blindAt_part hn hm hw]
  simp [Node.passesOver, hd, beq_eq_false_iff_ne.2 hr, beq_eq_false_iff_ne.2 hr']

theorem regular_root (hk : root.kind.isDeclaration = false) (hr : root.role = none) :
    Regular root [] root := by
  intro i m hm
  have hroot : root.at? [] = some root := rfl
  have hm : root.at? ([] ++ [i]) = some m := Node.at?_part hroot hm
  rw [List.nil_append] at hm
  simp [Node.blindAt, hm, hroot, Node.passesOver, hk, hr]

end

/-- Only functions have a part in the role of parameters. -/
theorem isFunction_of_parameters : ∀ k : Kind, ∀ rs ∈ k.fields,
    Role.parameters ∈ rs → k.isFunction = true := by
  intro k
  cases k <;> decide

theorem role_ne_parameters {n m : Node} {i : Nat} (hl : n.Lawful) (hf : n.kind.isFunction = false)
    (hi : n.parts[i]? = some m) : m.role ≠ some .parameters := by
  obtain ⟨kind, role, start, stop, text, parts⟩ := n
  obtain ⟨-, hk, -⟩ := hl
  intro hr
  split at hk
  · simp [hk.1] at hi
  · have hmem := List.mem_filterMap.2 ⟨m, List.mem_of_getElem? hi, hr⟩
    have hf' := isFunction_of_parameters kind _ hk.1 hmem
    simp [hf'] at hf

/-! ## The calls of a trace -/

section

variable {n m : Node} {i : Nat} {Q : Nat → Node → Prop}

theorem exists_part_nil (hs : n.parts.drop i = []) :
    ¬ ∃ j w, i ≤ j ∧ n.parts[j]? = some w ∧ Q j w := by
  rintro ⟨j, w, hij, hw, -⟩
  have hlt := (List.getElem?_eq_some_iff.1 hw).1
  have hle := List.drop_eq_nil_iff.1 hs
  omega

theorem exists_part_cons {ms : List Node} (hs : n.parts.drop i = m :: ms) :
    (∃ j w, i ≤ j ∧ n.parts[j]? = some w ∧ Q j w) ↔
      Q i m ∨ ∃ j w, i + 1 ≤ j ∧ n.parts[j]? = some w ∧ Q j w := by
  obtain ⟨hm, -⟩ := part_of_drop hs
  constructor
  · rintro ⟨j, w, hij, hw, hq⟩
    rcases Nat.eq_or_lt_of_le hij with rfl | hlt
    · obtain rfl : m = w := Option.some.inj (hm.symm.trans hw)
      exact .inl hq
    · exact .inr ⟨j, w, hlt, hw, hq⟩
  · rintro (hq | ⟨j, w, hij, hw, hq⟩)
    · exact ⟨i, m, Nat.le_refl i, hm, hq⟩
    · exact ⟨j, w, Nat.le_of_succ_le hij, hw, hq⟩

/-- The first part in a role is the only one. -/
theorem exists_role_cons {ms : List Node} {r : Role} (hl : n.Lawful)
    (hs : n.parts.drop i = m :: ms) (hr : m.role = some r) :
    (∃ j w, i ≤ j ∧ n.parts[j]? = some w ∧ w.role = some r ∧ Q j w) ↔ Q i m := by
  obtain ⟨hm, -⟩ := part_of_drop hs
  constructor
  · rintro ⟨j, w, hij, hw, hwr, hq⟩
    obtain rfl := Node.index_eq_of_role hl hm hw hr hwr
    obtain rfl : m = w := Option.some.inj (hm.symm.trans hw)
    exact hq
  · exact fun hq => ⟨i, m, Nat.le_refl i, hm, hr, hq⟩

end

theorem Names.check_not_mem {root c : Node} {p : Trail → Prop} {scope t : Trail} {sites : List Site}
    (h : Names root p scope sites) : ⟨t, .check c⟩ ∉ sites := by
  intro hm
  obtain ⟨-, -, -, name, form, he⟩ := h _ hm
  cases he

section

variable {root n m : Node} {here t : Trail} {c : Node} {i : Nat}

theorem regular_parts (hn : root.at? here = some n) (hl : n.Lawful)
    (hd : n.kind.isDeclaration = false) (hf : n.kind.isFunction = false)
    (hr : n.role ≠ some .parameters) (j : Nat) (m : Node) (hm : n.parts[j]? = some m) :
    m.role ≠ some .parameters ∧ Regular root (here ++ [j]) m :=
  have hm' := role_ne_parameters hl hf hm
  ⟨hm', regular_part hn hm hd hr hm'⟩

theorem seen_plain (hreg : Regular root here n) (hd : n.kind.isDeclaration = false)
    (hf : n.kind.isFunction = false) : Seen root here n t c ↔ (n.kind = .call ∧ t = here ∧ c = n) ∨
      ∃ i m, n.parts[i]? = some m ∧ Seen root (here ++ [i]) m t c := by
  rw [seen_iff]
  refine or_congr_right (exists_congr fun i => exists_congr fun m => and_congr_right fun hm => ?_)
  simp [hreg i m hm, hd, hf]

/-- Of a declarator its value is seen. -/
theorem seen_declarator (hn : root.at? here = some n) (hd : n.kind.isDeclaration = true)
    (hm : n.parts[i]? = some m) (hk : m.kind = .declarator) (hl : m.Lawful) :
    Seen root (here ++ [i]) m t c ↔
      ∃ k v, m.parts[k]? = some v ∧ v.role = some .value ∧ Seen root (here ++ [i] ++ [k]) v t c := by
  have hr : (m.role == some .parameters) = false :=
    beq_eq_false_iff_ne.2 fun hr => by simp [Node.kind_of_parameters hl hr] at hk
  have passed (v : Node) : n.passesOver m v = (v.role != some .value) := by
    have hk' : m.kind.isDeclaration = false ∧ m.kind.isFunction = false ∧
        (m.kind == .declarator) = true ∧ (m.kind == .assignmentPattern) = false := by
      rw [hk]; decide
    simp [Node.passesOver, hd, hk', hr]
  rw [seen_iff]
  simp only [hk, reduceCtorEq, false_and, false_or]
  refine exists_congr fun k => exists_congr fun v => and_congr_right fun hv => and_congr_left fun _ => ?_
  rw [blindAt_part hn hm hv, passed, bne_eq_false_iff_eq]

/-- Of a declaration the values of its declarators are seen. -/
theorem seen_declaration (hn : root.at? here = some n) (hl : n.Lawful) (hreg : Regular root here n)
    (hd : n.kind.isDeclaration = true) : Seen root here n t c ↔
      ∃ j m, n.parts[j]? = some m ∧ m.kind = .declarator ∧
        ∃ k v, m.parts[k]? = some v ∧ v.role = some .value ∧ Seen root (here ++ [j] ++ [k]) v t c := by
  have hk : n.kind ≠ .call ∧ n.kind.isFunction = false := by
    revert hd
    generalize n.kind = k
    cases k <;> decide
  rw [seen_iff]
  simp only [hk.1, false_and, false_or]
  refine exists_congr fun j => exists_congr fun m => and_congr_right fun hm => ?_
  rw [hreg j m hm]
  simp only [hd, hk.2, Bool.true_and, Bool.false_and, Bool.or_false, bne_eq_false_iff_eq]
  exact and_congr_right fun hmk => seen_declarator hn hd hm hmk (Node.lawful_part hl hm)

/-- Of a list of parameters the default values are seen. -/
theorem seen_parameters (hn : root.at? here = some n) (hm : n.parts[i]? = some m)
    (hr : m.role = some .parameters) (hl : m.Lawful) :
    Seen root (here ++ [i]) m t c ↔ ∃ k e, m.parts[k]? = some e ∧ e.kind = .assignmentPattern ∧
      ∃ l v, e.parts[l]? = some v ∧ v.role = some .right ∧
        Seen root (here ++ [i] ++ [k] ++ [l]) v t c := by
  have hk := Node.kind_of_parameters hl hr
  have hk' : m.kind.isDeclaration = false ∧ m.kind.isFunction = false ∧
      (m.kind == .declarator) = false ∧ (m.kind == .assignmentPattern) = false := by rw [hk]; decide
  have passed (e : Node) : n.passesOver m e = (e.kind != .assignmentPattern) := by
    simp [Node.passesOver, hk', hr]
  rw [seen_iff]
  simp only [hk, reduceCtorEq, false_and, false_or]
  refine exists_congr fun k => exists_congr fun e => and_congr_right fun he => ?_
  rw [blindAt_part hn hm he, passed, bne_eq_false_iff_eq]
  refine and_congr_right fun hek => ?_
  have her : (e.role == some .parameters) = false := beq_eq_false_iff_ne.2 fun her => by
    simp [Node.kind_of_parameters (Node.lawful_part hl he) her] at hek
  have passed' (v : Node) : m.passesOver e v = (v.role != some .right) := by
    have hek' : e.kind.isDeclaration = false ∧ e.kind.isFunction = false ∧
        (e.kind == .assignmentPattern) = true := by rw [hek]; decide
    simp [Node.passesOver, hk', hr, hek', her]
  rw [seen_iff]
  simp only [hek, reduceCtorEq, false_and, false_or]
  refine exists_congr fun l => exists_congr fun v => and_congr_right fun hv => and_congr_left fun _ => ?_
  rw [blindAt_part (Node.at?_part hn hm) he hv, passed', bne_eq_false_iff_eq]

/-- Of a function the default values of its parameters and the body are seen. -/
theorem seen_function (hn : root.at? here = some n) (hl : n.Lawful) (hreg : Regular root here n)
    (hf : n.kind.isFunction = true) : Seen root here n t c ↔
      (∃ j m, n.parts[j]? = some m ∧ m.role = some .parameters ∧
        ∃ k e, m.parts[k]? = some e ∧ e.kind = .assignmentPattern ∧
          ∃ l v, e.parts[l]? = some v ∧ v.role = some .right ∧
            Seen root (here ++ [j] ++ [k] ++ [l]) v t c) ∨
      ∃ j m, n.parts[j]? = some m ∧ m.role = some .body ∧ Seen root (here ++ [j]) m t c := by
  have hk : n.kind ≠ .call ∧ n.kind.isDeclaration = false := by
    revert hf
    generalize n.kind = k
    cases k <;> decide
  rw [seen_iff]
  simp only [hk.1, false_and, false_or, ← exists_or]
  refine exists_congr fun j => exists_congr fun m => ?_
  rw [← and_or_left]
  refine and_congr_right fun hm => ?_
  have hblind : root.blindAt (here ++ [j]) = false ↔
      m.role = some .parameters ∨ m.role = some .body := by
    rw [hreg j m hm]
    simp [hk.2, hf, or_iff_not_imp_left]
  rw [hblind, or_and_right]
  exact or_congr_left (and_congr_right fun hr => seen_parameters hn hm hr (Node.lawful_part hl hm))

end

section

variable {root : Node} {t : Trail} {c : Node}

mutual

/-- **The checked calls of a node** are those that can be seen from it. -/
theorem check_mem_trace (s : Source) {here : Trail} :
    ∀ n : Node, root.at? here = some n → n.Lawful → n.role ≠ some .parameters →
      Regular root here n → (⟨t, .check c⟩ ∈ trace s here n ↔ Seen root here n t c)
  | ⟨kind, role, start, stop, text, parts⟩, hn, hl, hrole, hreg => by
    have hall := hl.2.2
    have all (hd : kind.isDeclaration = false) (hf : kind.isFunction = false) :
        ⟨t, .check c⟩ ∈ traceAll s here 0 parts ↔
          ∃ j m, 0 ≤ j ∧ parts[j]? = some m ∧ Seen root (here ++ [j]) m t c :=
      check_mem_traceAll s hn (regular_parts hn hl hd hf hrole) 0 parts rfl hall
    have plain (hk : kind ≠ .call) (hd : kind.isDeclaration = false)
        (hf : kind.isFunction = false) : ⟨t, .check c⟩ ∈ traceAll s here 0 parts ↔
          Seen root here ⟨kind, role, start, stop, text, parts⟩ t c := by
      rw [all hd hf, seen_plain hreg hd hf]
      simp [hk]
    have declaration (hd : kind.isDeclaration = true) {declared : Option TypeInfo} :
        ⟨t, .check c⟩ ∈ traceDeclarators s declared here 0 parts ↔
          Seen root here ⟨kind, role, start, stop, text, parts⟩ t c := by
      rw [check_mem_traceDeclarators s declared hn 0 parts rfl hall, seen_declaration hn hl hreg hd]
      simp
    have function (hd : kind.isDeclaration = false) (hf : kind.isFunction = true) :
        ⟨t, .check c⟩ ∈ (⟨here, .enter⟩ :: (parameterSitesOf .parameter here 0 parts ++
          traceParameters s here 0 parts ++ traceRole s .body here 0 parts) ++ [⟨here, .leave⟩]) ↔
            Seen root here ⟨kind, role, start, stop, text, parts⟩ t c := by
      have single := (names_parameterSitesOf .parameter hn 0 parts rfl).check_not_mem (t := t) (c := c)
      have params := check_mem_traceParameters s hn hl 0 parts rfl hall
      have body := check_mem_traceRole s (r := .body) (by decide) hn hl
        (fun j m hm hr => regular_part hn hm hd hrole (by simp [hr])) 0 parts rfl hall
      rw [seen_function hn hl hreg hf]
      simp [single, params, body]
    cases kind <;> simp only [trace]
    case block => simpa using plain (by decide) rfl rfl
    case varDeclaration | lexicalDeclaration => exact declaration rfl
    case functionDeclaration | generatorDeclaration | function | generator | arrow | method =>
      exact function rfl rfl
    case call =>
      rw [List.mem_cons, all rfl rfl, seen_plain hreg rfl rfl]
      exact or_congr (by simp) (by simp)
    all_goals exact plain (by decide) rfl rfl
  termination_by structural n => n

theorem check_mem_traceAll (s : Source) {here : Trail} {n : Node} (hn : root.at? here = some n)
    (hreg : ∀ j m, n.parts[j]? = some m → m.role ≠ some .parameters ∧ Regular root (here ++ [j]) m)
    (i : Nat) :
    ∀ ns : List Node, n.parts.drop i = ns → Node.AllLawful ns →
      (⟨t, .check c⟩ ∈ traceAll s here i ns ↔
        ∃ j m, i ≤ j ∧ n.parts[j]? = some m ∧ Seen root (here ++ [j]) m t c)
  | [], hs, _ => iff_of_false List.not_mem_nil (exists_part_nil hs)
  | m :: ms, hs, ⟨hl, hls⟩ => by
    obtain ⟨hm, hms⟩ := part_of_drop hs
    obtain ⟨hrole, hregular⟩ := hreg i m hm
    rw [exists_part_cons hs, traceAll, List.mem_append, check_mem_traceAll s hn hreg (i + 1) ms hms hls]
    refine or_congr_left ?_
    split
    case isTrue hk =>
      exact iff_of_false List.not_mem_nil (not_seen_of_isWord hl (by rw [hk]; rfl))
    case isFalse => exact check_mem_trace s m (Node.at?_part hn hm) hl hrole hregular
  termination_by structural ns => ns

theorem check_mem_traceRole (s : Source) {r : Role} (hr : r ≠ .parameters) {here : Trail} {n : Node}
    (hn : root.at? here = some n) (hlaw : n.Lawful)
    (hreg : ∀ j m, n.parts[j]? = some m → m.role = some r → Regular root (here ++ [j]) m) (i : Nat) :
    ∀ ns : List Node, n.parts.drop i = ns → Node.AllLawful ns →
      (⟨t, .check c⟩ ∈ traceRole s r here i ns ↔
        ∃ j m, i ≤ j ∧ n.parts[j]? = some m ∧ m.role = some r ∧ Seen root (here ++ [j]) m t c)
  | [], hs, _ => iff_of_false List.not_mem_nil (exists_part_nil hs)
  | m :: ms, hs, ⟨hl, hls⟩ => by
    obtain ⟨hm, hms⟩ := part_of_drop hs
    simp only [traceRole]
    split
    case isTrue h =>
      rw [exists_role_cons hlaw hs h]
      exact check_mem_trace s m (Node.at?_part hn hm) hl (by simp [h, hr]) (hreg i m hm h)
    case isFalse h =>
      rw [exists_part_cons hs, check_mem_traceRole s hr hn hlaw hreg (i + 1) ms hms hls]
      simp [h]
  termination_by structural ns => ns

theorem check_mem_traceDeclarators (s : Source) (declared : Option TypeInfo) {here : Trail} {n : Node}
    (hn : root.at? here = some n) (i : Nat) :
    ∀ ns : List Node, n.parts.drop i = ns → Node.AllLawful ns →
      (⟨t, .check c⟩ ∈ traceDeclarators s declared here i ns ↔
        ∃ j m, i ≤ j ∧ n.parts[j]? = some m ∧ m.kind = .declarator ∧
          ∃ k v, m.parts[k]? = some v ∧ v.role = some .value ∧ Seen root (here ++ [j] ++ [k]) v t c)
  | [], hs, _ => iff_of_false List.not_mem_nil (exists_part_nil hs)
  | ⟨kind, role, start, stop, text, parts⟩ :: ms, hs, ⟨hl, hls⟩ => by
    obtain ⟨hm, hms⟩ := part_of_drop hs
    have hm := Node.at?_part hn hm
    rw [exists_part_cons hs, traceDeclarators, List.mem_append,
      check_mem_traceDeclarators s declared hn (i + 1) ms hms hls]
    refine or_congr_left ?_
    split
    case isTrue hk =>
      subst hk
      have hr : role ≠ some .parameters := fun hr => by cases hl.1 hr
      have value := check_mem_traceRole s (r := .value) (by decide) hm hl
        (fun j v hv hvr => regular_part hm hv rfl hr (by simp [hvr])) 0 parts rfl hl.2.2
      rw [List.mem_append, value]
      simp [(names_declaratorSites declared hm rfl).check_not_mem]
    case isFalse hk => simp [hk]
  termination_by structural ns => ns

theorem check_mem_traceParameters (s : Source) {here : Trail} {n : Node}
    (hn : root.at? here = some n) (hlaw : n.Lawful) (i : Nat) :
    ∀ ns : List Node, n.parts.drop i = ns → Node.AllLawful ns →
      (⟨t, .check c⟩ ∈ traceParameters s here i ns ↔
        ∃ j m, i ≤ j ∧ n.parts[j]? = some m ∧ m.role = some .parameters ∧
          ∃ k e, m.parts[k]? = some e ∧ e.kind = .assignmentPattern ∧
            ∃ l v, e.parts[l]? = some v ∧ v.role = some .right ∧
              Seen root (here ++ [j] ++ [k] ++ [l]) v t c)
  | [], hs, _ => iff_of_false List.not_mem_nil (exists_part_nil hs)
  | ⟨kind, role, start, stop, text, parts⟩ :: ms, hs, ⟨hl, hls⟩ => by
    obtain ⟨hm, hms⟩ := part_of_drop hs
    simp only [traceParameters]
    split
    case isTrue h =>
      rw [exists_role_cons hlaw hs h, check_mem_traceParameterList s (Node.at?_part hn hm) 0 parts rfl hl.2.2]
      simp
    case isFalse h =>
      rw [exists_part_cons hs, check_mem_traceParameters s hn hlaw (i + 1) ms hms hls]
      simp [h]
  termination_by structural ns => ns

theorem check_mem_traceParameterList (s : Source) {here : Trail} {n : Node}
    (hn : root.at? here = some n) (i : Nat) :
    ∀ ns : List Node, n.parts.drop i = ns → Node.AllLawful ns →
      (⟨t, .check c⟩ ∈ traceParameterList s here i ns ↔
        ∃ j e, i ≤ j ∧ n.parts[j]? = some e ∧ e.kind = .assignmentPattern ∧
          ∃ l v, e.parts[l]? = some v ∧ v.role = some .right ∧ Seen root (here ++ [j] ++ [l]) v t c)
  | [], hs, _ => iff_of_false List.not_mem_nil (exists_part_nil hs)
  | ⟨kind, role, start, stop, text, parts⟩ :: ms, hs, ⟨hl, hls⟩ => by
    obtain ⟨hm, hms⟩ := part_of_drop hs
    have hm := Node.at?_part hn hm
    unfold traceParameterList
    rw [exists_part_cons hs, List.mem_append, check_mem_traceParameterList s hn (i + 1) ms hms hls]
    refine or_congr_left ?_
    split
    case h_1 => simp
    case h_2 =>
      have hr : role ≠ some .parameters := fun hr => by cases hl.1 hr
      have right := check_mem_traceRole s (r := .right) (by decide) hm hl
        (fun j v hv hvr => regular_part hm hv rfl hr (by simp [hvr])) 0 parts rfl hl.2.2
      have names := names_parameterSitesOf .left hm 0 parts rfl
      rw [List.mem_append, right]
      simp [names.check_not_mem]
    case h_3 _ hk =>
      exact iff_of_false (names_parameterSites _ hm).check_not_mem fun h => hk h.1
  termination_by structural ns => ns

end

end

/-! ## The calls of a script -/

section

variable {s : Source} {here : Trail} {call : Node}

theorem inSight_iff {root : Node} {t : Trail} :
    root.inSight t = true ↔ ∀ u, u <+: t → root.blindAt u = false := by
  simp [Node.inSight]

theorem blindAt_root (hs : s.WellFormed) : s.root.blindAt [] = false := by
  simp [Node.blindAt, Node.at?, Node.passesOver, hs.kind, hs.role, Kind.isDeclaration,
    Kind.isFunction]

theorem check_mem_root (hs : s.WellFormed) (hat : s.root.at? here = some call)
    (hk : call.kind = .call) :
    ⟨here, .check call⟩ ∈ trace s [] s.root ↔ s.root.inSight here = true := by
  rw [check_mem_trace s s.root rfl hs.lawful (by simp [hs.role])
    (regular_root (by rw [hs.kind]; rfl) hs.role), inSight_iff]
  constructor
  · rintro ⟨u, rfl, -, -, hclear⟩ v hv
    by_cases hne : v = []
    · rw [hne]
      exact blindAt_root hs
    · exact hclear v hv hne
  · intro hsight
    exact ⟨here, rfl, hat, hk, fun v hv _ => hsight v hv⟩

/-- What a trace checks at a place is the node there. -/
theorem call_of_check (hs : s.WellFormed) {c : Node}
    (hc : ⟨here, .check c⟩ ∈ trace s [] s.root) : s.root.at? here = some c :=
  (tidy_root hs).stands _ hc

theorem check_unique (hs : s.WellFormed) {j k : Nat} {c : Node}
    (hj : (trace s [] s.root)[j]? = some ⟨here, .check c⟩)
    (hk : (trace s [] s.root)[k]? = some ⟨here, .check c⟩) : j = k := by
  have hfresh := List.pairwise_iff_getElem.1 (tidy_root hs).fresh
  have apart {i l : Nat} (hi : (trace s [] s.root)[i]? = some ⟨here, .check c⟩)
      (hl : (trace s [] s.root)[l]? = some ⟨here, .check c⟩) : ¬ i < l := by
    intro hlt
    obtain ⟨hi', hi⟩ := List.getElem?_eq_some_iff.1 hi
    obtain ⟨hl', hl⟩ := List.getElem?_eq_some_iff.1 hl
    have hne := hfresh i l hi' hl' hlt
    rw [hi, hl] at hne
    exact hne rfl List.prefix_rfl
  have := apart hj hk
  have := apart hk hj
  omega

/-- How often a call in a well-formed script is checked. -/
theorem check_once_or_never (hs : s.WellFormed) (hat : s.root.at? here = some call)
    (hk : call.kind = .call) :
    if s.root.inSight here then ∃! k : Nat, (trace s [] s.root)[k]? = some ⟨here, .check call⟩
    else ∀ c, ⟨here, .check c⟩ ∉ trace s [] s.root := by
  have hmem := check_mem_root hs hat hk
  split
  case isTrue hsight =>
    obtain ⟨k, hk⟩ := List.mem_iff_getElem?.1 (hmem.2 hsight)
    exact ⟨k, hk, fun j hj => check_unique hs hj hk⟩
  case isFalse hsight =>
    intro c hc
    obtain rfl : call = c := Option.some.inj (hat.symm.trans (call_of_check hs hc))
    exact hsight (hmem.1 hc)

end

/-- **A call in a script** is checked exactly once when nothing on the way to it is passed over, and
never when something is. -/
theorem checks_calls_in_sight (text : String) (s : Source) (h : Source.parse? text = some s)
    (index : SymbolIndex) (options : ResolveOptions) :
    visit ⟨s, index, options⟩ s.root {} = run ⟨s, index, options⟩ (trace s [] s.root) {} ∧
      ∀ here call, s.root.at? here = some call → call.kind = .call →
        if s.root.inSight here then ∃! k : Nat, (trace s [] s.root)[k]? = some ⟨here, .check call⟩
        else ∀ c, ⟨here, .check c⟩ ∉ trace s [] s.root := by
  refine ⟨visit_eq_run _ [] s.root {}, fun here call hat hk => ?_⟩
  exact check_once_or_never (wellFormed_of_parse? h) hat hk

/-- A call in the default value of a pattern that a declaration has for its name. -/
def callInPattern : String := "var \x7ba = db.get('')\x7d = o;"

/-- The call does not fit, and nothing is found. -/
theorem callInPattern_unfound :
    (Source.parse? callInPattern).map (fun s =>
      ((s.root.at? [0, 0, 0, 0, 1]).bind calledMethod?,
        (trace s [] s.root).countP (·.event matches .check _), (ofSource numberLookup {} s).length)) =
      some (some ("db", "get"), 0, 0) := by
  decide +kernel

theorem callInPattern_unchecked :
    ∃ s call, Source.parse? callInPattern = some s ∧ s.root.at? [0, 0, 0, 0, 1] = some call ∧
      call.kind = .call ∧ s.root.inSight [0, 0, 0, 0, 1] = false ∧
      ∀ c, ⟨[0, 0, 0, 0, 1], .check c⟩ ∉ trace s [] s.root := by
  have hcall : (Source.parse? callInPattern).map (fun s =>
      ((s.root.at? [0, 0, 0, 0, 1]).map (·.kind), s.root.inSight [0, 0, 0, 0, 1])) =
      some (some .call, false) := by decide +kernel
  obtain ⟨s, h, hcall⟩ := Option.map_eq_some_iff.1 hcall
  obtain ⟨hat, hsight⟩ := Prod.mk.inj hcall
  obtain ⟨call, hat, hk⟩ := Option.map_eq_some_iff.1 hat
  refine ⟨s, call, h, hat, hk, hsight, ?_⟩
  have hchecks := (checks_calls_in_sight callInPattern s h numberLookup {}).2 _ call hat hk
  simpa [hsight] using hchecks

end Diagnostic

end ScriptAtlas
