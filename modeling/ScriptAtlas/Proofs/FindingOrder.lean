/-
Findings come in source order. A walk checks calls in the order in which they
start, and no two calls of a method start at the same byte: such a call starts
with the name of an object, and nothing inside it does before that name ends
(`quiet`).

`Rising` says that bytes go up between two bounds. `rising_trace` says it of the
calls that a walk checks in a node, and `findings_in_order` of what it reports.
-/
import ScriptAtlas.Proofs.CheckedCalls

namespace ScriptAtlas

namespace Script

mutual

/-- No call of a method starts in the node before this byte, but for the node itself. -/
def Node.quiet : Node → Nat
  | ⟨kind, _, start, stop, _, parts⟩ =>
    if kind.isWord then stop.byte else if kind = .member then quietAll start.byte parts else start.byte

/-- No call of a method starts in the nodes before this byte. -/
def Node.quietAll (first : Nat) : List Node → Nat
  | [] => first
  | n :: _ => n.quiet

end

namespace Node

mutual

theorem quiet_bounds : ∀ {n : Node}, n.Laid → n.start.byte ≤ n.quiet ∧ n.quiet ≤ n.stop.byte
  | ⟨kind, _, start, stop, _, parts⟩, h => by
    have hle := AllLaid.le h
    have hparts := quietAll_bounds h
    simp only [quiet]
    split
    · exact ⟨hle, Nat.le_refl _⟩
    · split
      · exact hparts
      · exact ⟨Nat.le_refl _, hle⟩

theorem quietAll_bounds : ∀ {ns : List Node} {a b : Nat}, AllLaid a ns b →
    a ≤ quietAll a ns ∧ quietAll a ns ≤ b
  | [], _, _, h => ⟨Nat.le_refl _, h⟩
  | n :: _, _, _, ⟨hn, hl, hns⟩ => by
    obtain ⟨hlow, hhigh⟩ := quiet_bounds hl
    exact ⟨Nat.le_trans hn hlow, Nat.le_trans hhigh hns.le⟩

end

end Node

end Script

namespace Diagnostic

open Script

/-! ## Bytes that go up -/

/-- The bytes go up, from the first bound on and before the second. -/
structure Rising (a : Nat) (xs : List Nat) (b : Nat) : Prop where
  pairwise : xs.Pairwise (· < ·)
  within : ∀ x ∈ xs, a ≤ x ∧ x < b

namespace Rising

variable {a a' b b' : Nat} {xs ys : List Nat}

theorem nil : Rising a [] b := ⟨.nil, nofun⟩

theorem mono (h : Rising a xs b) (ha : a' ≤ a) (hb : b ≤ b') : Rising a' xs b' := by
  refine ⟨h.pairwise, fun x hx => ?_⟩
  have := h.within x hx
  omega

theorem append {c : Nat} (h : Rising a xs b) (h' : Rising b ys c) (hab : a ≤ b) (hbc : b ≤ c) :
    Rising a (xs ++ ys) c := by
  refine ⟨List.pairwise_append.2 ⟨h.pairwise, h'.pairwise, fun x hx y hy => ?_⟩, fun x hx => ?_⟩
  · have := h.within x hx
    have := h'.within y hy
    omega
  · rcases List.mem_append.1 hx with hx | hx
    · have := h.within x hx
      omega
    · have := h'.within x hx
      omega

theorem cons (h : Rising a xs b) (hlt : a' < a) (hab : a ≤ b) : Rising a' (a' :: xs) b := by
  refine ⟨List.pairwise_cons.2 ⟨fun x hx => ?_, h.pairwise⟩, ?_⟩
  · have := h.within x hx
    omega
  · rintro x (_ | ⟨_, hx⟩)
    · omega
    · have := h.within x hx
      omega

end Rising

/-! ## Where calls of methods start -/

/-- Where the call that a site checks starts, if it is one of a method. -/
def Site.start? (site : Site) : Option Nat :=
  match site.event with
  | .check call => (calledMethod? call).map fun _ => call.start.byte
  | _ => none

/-- Where the calls of methods start that the sites check, in their order. -/
def starts (sites : List Site) : List Nat := sites.filterMap Site.start?

@[simp] theorem starts_nil : starts [] = [] := rfl

@[simp] theorem starts_append (a b : List Site) : starts (a ++ b) = starts a ++ starts b :=
  List.filterMap_append

theorem starts_cons (site : Site) (sites : List Site) :
    starts (site :: sites) = site.start?.toList ++ starts sites := by
  cases h : site.start? <;> simp [starts, h]

/-- Entering and leaving a scope checks nothing. -/
theorem starts_scope (here : Trail) (sites : List Site) :
    starts (⟨here, .enter⟩ :: sites ++ [⟨here, .leave⟩]) = starts sites := by
  rw [starts_append, starts_cons, starts_cons]
  simp [Site.start?]

theorem Names.starts_eq_nil {root : Node} {p : Trail → Prop} {scope : Trail} {sites : List Site}
    (h : Names root p scope sites) : starts sites = [] := by
  refine List.filterMap_eq_nil_iff.2 fun site hs => ?_
  obtain ⟨-, -, -, name, form, he⟩ := h site hs
  simp [Site.start?, he]

/-! ## Parts in order -/

/-- No kind has the parameters behind the body. -/
theorem parameters_before_body : ∀ k : Kind, ∀ rs ∈ k.fields,
    rs.Pairwise fun r r' => r = .body → r' ≠ .parameters := by
  intro k
  cases k <;> decide

section

variable {n m m' : Node} {ns : List Node} {r : Role} {a b i j : Nat} {xs ys : List Nat}

/-- The bytes go up inside the part in a role. -/
inductive RisesIn (n : Node) (r : Role) : List Nat → Prop
  | nil : RisesIn n r []
  | part {i : Nat} {m : Node} {xs : List Nat} (hm : n.parts[i]? = some m) (hr : m.role = some r)
      (h : Rising m.start.byte xs m.stop.byte) : RisesIn n r xs

theorem RisesIn.whole (hn : n.Laid) (h : RisesIn n r xs) : Rising n.start.byte xs n.stop.byte := by
  cases h with
  | nil => exact .nil
  | part hm _ hxs =>
    obtain ⟨hlow, -, hhigh⟩ := Node.bounds_of_part hn.parts hm
    exact hxs.mono hlow hhigh

theorem index_lt_of_roles (hl : n.Lawful) (hi : n.parts[i]? = some m) (hj : n.parts[j]? = some m')
    (hm : m.role = some .parameters) (hm' : m'.role = some .body) : i < j := by
  obtain ⟨kind, role, start, stop, text, parts⟩ := n
  have hfields := hl.2.1
  split at hfields
  · simp [hfields.1] at hi
  · have ho := List.pairwise_filterMap.1 (parameters_before_body kind _ hfields.1)
    obtain ⟨hi', rfl⟩ := List.getElem?_eq_some_iff.1 hi
    obtain ⟨hj', rfl⟩ := List.getElem?_eq_some_iff.1 hj
    rcases Nat.lt_trichotomy i j with h | rfl | h
    · exact h
    · simp [hm] at hm'
    · exact absurd rfl (List.pairwise_iff_getElem.1 ho j i hj' hi' h _ hm' _ hm rfl)

/-- What is in the parameters comes before what is in the body. -/
theorem RisesIn.append_body (hn : n.Laid) (hl : n.Lawful) (h : RisesIn n .parameters xs)
    (h' : RisesIn n .body ys) : Rising n.start.byte (xs ++ ys) n.stop.byte := by
  cases h with
  | nil => exact h'.whole hn
  | part hm hr hxs =>
    cases h' with
    | nil =>
      rw [List.append_nil]
      exact (RisesIn.part hm hr hxs).whole hn
    | part hm' hr' hys =>
      obtain ⟨hlow, hlaid, -⟩ := Node.bounds_of_part hn.parts hm
      obtain ⟨-, hlaid', hhigh⟩ := Node.bounds_of_part hn.parts hm'
      have hle := Node.stop_le_start hn.parts (index_lt_of_roles hl hm hm' hr hr') hm hm'
      have := hlaid.start_le_stop
      have := hlaid'.start_le_stop
      exact (hxs.append (hys.mono hle (Nat.le_refl _)) (by omega) (by omega)).mono hlow hhigh

end

/-! ## Calls of methods -/

section

variable {n m : Node} {r : Role}

theorem quiet_of_isWord (hk : n.kind.isWord = true) : n.quiet = n.stop.byte := by
  obtain ⟨kind, role, start, stop, text, parts⟩ := n
  simp only [Node.quiet]
  rw [if_pos hk]

theorem quiet_of_member (hk : n.kind = .member) : n.quiet = Node.quietAll n.start.byte n.parts := by
  obtain ⟨kind, role, start, stop, text, parts⟩ := n
  obtain rfl : kind = .member := hk
  rfl

theorem leads_of_child? (hl : n.Lawful) (hr : n.kind.lead? = some r) (hm : n.child? r = some m) :
    ∃ rest, n.parts = m :: rest ∧ m.start = n.start := by
  obtain ⟨kind, role, start, stop, text, parts⟩ := n
  have hword : ¬ kind.isWord = true := by
    revert hr
    cases kind <;> simp [Kind.lead?, Kind.isWord]
  have hlead := hl.2.1
  rw [if_neg hword] at hlead
  obtain ⟨first, rest, rfl, hrole, hstart⟩ := hlead.2 r hr
  obtain rfl : first = m := by simpa [Node.child?, hrole] using hm
  exact ⟨rest, rfl, hstart⟩

theorem calledMethod?_isSome (h : (calledMethod? n).isSome = true) :
    ∃ callee, n.child? .callee = some callee ∧ callee.kind = .member ∧
      ∃ object, callee.child? .object = some object ∧ object.kind = .identifier := by
  obtain ⟨names, h⟩ := Option.isSome_iff_exists.1 h
  obtain ⟨callee, hcallee, h⟩ := Option.bind_eq_some_iff.1 h
  obtain ⟨_, hmember, h⟩ := Option.bind_eq_some_iff.1 h
  obtain ⟨object, hobject, h⟩ := Option.bind_eq_some_iff.1 h
  obtain ⟨property, _, h⟩ := Option.bind_eq_some_iff.1 h
  obtain ⟨_, hnames, _⟩ := Option.bind_eq_some_iff.1 h
  have hmember : callee.kind = .member := by
    by_contra hne
    rw [guard, if_neg hne] at hmember
    cases hmember
  have hname : object.kind = .identifier := by
    by_contra hne
    rw [guard, if_neg (by simp [hne])] at hnames
    cases hnames
  exact ⟨callee, hcallee, hmember, object, hobject, hname⟩

end

/-- A call of a method starts with the name of its object. -/
theorem start_lt_quietAll {n : Node} (hl : n.Lawful) (hk : n.kind = .call)
    (hm : (calledMethod? n).isSome = true) : n.start.byte < Node.quietAll n.start.byte n.parts := by
  obtain ⟨callee, hcallee, hmember, object, hobject, hname⟩ := calledMethod?_isSome hm
  obtain ⟨rest, hparts, hstart⟩ := leads_of_child? hl (hk ▸ rfl) hcallee
  have hl' : callee.Lawful := Node.lawful_part (i := 0) hl (by simp [hparts])
  obtain ⟨rest', hparts', hstart'⟩ := leads_of_child? hl' (hmember ▸ rfl) hobject
  have hword : object.kind.isWord = true := by rw [hname]; rfl
  have hl'' : object.Lawful := Node.lawful_part (i := 0) hl' (by simp [hparts'])
  calc n.start.byte
      = object.start.byte := by rw [hstart', hstart]
    _ < object.stop.byte := Node.start_lt_stop hl'' hword
    _ = object.quiet := (quiet_of_isWord hword).symm
    _ = callee.quiet := by rw [quiet_of_member hmember, hparts']; rfl
    _ = Node.quietAll n.start.byte n.parts := by rw [hparts]; rfl

section

variable {root : Node}

mutual

/-- **The calls that a walk checks** in a node start one after another. -/
theorem rising_trace (s : Source) {here : Trail} : ∀ n : Node, root.at? here = some n → n.Lawful →
    n.Laid → Rising n.quiet (starts (trace s here n)) n.stop.byte
  | ⟨kind, role, start, stop, text, parts⟩, hn, hl, hlaid => by
    have hall := hl.2.2
    have hbounds := Node.quietAll_bounds hlaid
    have all := rising_traceAll s hn 0 parts rfl hall hlaid
    have plain (hk : kind.isWord = false) : Rising (Node.quiet ⟨kind, role, start, stop, text, parts⟩)
        (starts (traceAll s here 0 parts)) stop.byte := by
      refine all.mono ?_ (Nat.le_refl _)
      simp only [Node.quiet, hk, Bool.false_eq_true, if_false]
      split
      · exact Nat.le_refl _
      · exact hbounds.1
    have word (hk : kind.isWord = true) : Rising (Node.quiet ⟨kind, role, start, stop, text, parts⟩)
        (starts (traceAll s here 0 parts)) stop.byte := by
      have hw := hl.2.1
      rw [if_pos hk] at hw
      rw [hw.1]
      exact .nil
    cases kind <;> simp only [trace]
    case block =>
      rw [starts_scope]
      exact plain rfl
    case varDeclaration | lexicalDeclaration =>
      exact rising_traceDeclarators s _ hn 0 parts rfl hall hlaid
    case functionDeclaration | generatorDeclaration | function | generator | arrow | method =>
      rw [starts_scope, List.append_assoc, starts_append,
        (names_parameterSitesOf .parameter hn 0 parts rfl).starts_eq_nil]
      rw [List.nil_append, starts_append]
      exact (rising_traceParameters s hn 0 parts rfl hall hlaid).append_body hlaid hl
        (rising_traceRole s .body hn 0 parts rfl hall hlaid)
    case call =>
      rw [starts_cons]
      cases hc : Site.start? ⟨here, .check ⟨.call, role, start, stop, text, parts⟩⟩ with
      | none => exact plain rfl
      | some x =>
        obtain ⟨names, hnames, rfl⟩ := Option.map_eq_some_iff.1 hc
        exact all.cons (start_lt_quietAll hl rfl (by rw [hnames]; rfl)) hbounds.2
    all_goals first | exact plain rfl | exact word rfl
  termination_by structural n => n

theorem rising_traceAll (s : Source) {here : Trail} {n : Node} (hn : root.at? here = some n)
    (i : Nat) : ∀ {a b : Nat} (ns : List Node), n.parts.drop i = ns → Node.AllLawful ns →
      Node.AllLaid a ns b → Rising (Node.quietAll a ns) (starts (traceAll s here i ns)) b
  | a, b, [], _, _, _ => .nil
  | a, b, m :: ms, hs, ⟨hl, hls⟩, ⟨ha, hlaid, hlaids⟩ => by
    obtain ⟨hm, hms⟩ := part_of_drop hs
    have hquiet := Node.quiet_bounds hlaid
    have hrest := Node.quietAll_bounds hlaids
    have rest := (rising_traceAll s hn (i + 1) ms hms hls hlaids).mono hrest.1 (Nat.le_refl _)
    rw [traceAll, starts_append]
    refine Rising.append ?_ rest hquiet.2 hlaids.le
    split
    · exact .nil
    · exact rising_trace s m (Node.at?_part hn hm) hl hlaid
  termination_by structural _ _ ns => ns

theorem rising_traceRole (s : Source) (r : Role) {here : Trail} {n : Node}
    (hn : root.at? here = some n) (i : Nat) : ∀ {a b : Nat} (ns : List Node), n.parts.drop i = ns →
      Node.AllLawful ns → Node.AllLaid a ns b → RisesIn n r (starts (traceRole s r here i ns))
  | a, b, [], _, _, _ => .nil
  | a, b, m :: ms, hs, ⟨hl, hls⟩, ⟨_, hlaid, hlaids⟩ => by
    obtain ⟨hm, hms⟩ := part_of_drop hs
    simp only [traceRole]
    split
    case isTrue h =>
      have part := rising_trace s m (Node.at?_part hn hm) hl hlaid
      exact .part hm h (part.mono (Node.quiet_bounds hlaid).1 (Nat.le_refl _))
    case isFalse => exact rising_traceRole s r hn (i + 1) ms hms hls hlaids
  termination_by structural _ _ ns => ns

theorem rising_traceDeclarators (s : Source) (declared : Option TypeInfo) {here : Trail} {n : Node}
    (hn : root.at? here = some n) (i : Nat) : ∀ {a b : Nat} (ns : List Node), n.parts.drop i = ns →
      Node.AllLawful ns → Node.AllLaid a ns b →
        Rising a (starts (traceDeclarators s declared here i ns)) b
  | a, b, [], _, _, _ => .nil
  | a, b, ⟨kind, role, start, stop, text, parts⟩ :: ms, hs, ⟨⟨_, _, hl⟩, hls⟩, ⟨ha, hlaid, hlaids⟩ => by
    obtain ⟨hm, hms⟩ := part_of_drop hs
    have hm := Node.at?_part hn hm
    have hle : start.byte ≤ stop.byte := hlaid.start_le_stop
    rw [traceDeclarators, starts_append]
    refine Rising.append ?_ (rising_traceDeclarators s declared hn (i + 1) ms hms hls hlaids)
      (Nat.le_trans ha hle) hlaids.le
    split
    case isTrue hk =>
      subst hk
      rw [starts_append, (names_declaratorSites declared hm rfl).starts_eq_nil, List.append_nil]
      exact ((rising_traceRole s .value hm 0 parts rfl hl hlaid).whole hlaid).mono ha (Nat.le_refl _)
    case isFalse => exact .nil
  termination_by structural _ _ ns => ns

theorem rising_traceParameters (s : Source) {here : Trail} {n : Node} (hn : root.at? here = some n)
    (i : Nat) : ∀ {a b : Nat} (ns : List Node), n.parts.drop i = ns → Node.AllLawful ns →
      Node.AllLaid a ns b → RisesIn n .parameters (starts (traceParameters s here i ns))
  | a, b, [], _, _, _ => .nil
  | a, b, ⟨kind, role, start, stop, text, parts⟩ :: ms, hs, ⟨⟨_, _, hl⟩, hls⟩, ⟨_, hlaid, hlaids⟩ => by
    obtain ⟨hm, hms⟩ := part_of_drop hs
    simp only [traceParameters]
    split
    case isTrue h =>
      exact .part hm h (rising_traceParameterList s (Node.at?_part hn hm) 0 parts rfl hl hlaid)
    case isFalse => exact rising_traceParameters s hn (i + 1) ms hms hls hlaids
  termination_by structural _ _ ns => ns

theorem rising_traceParameterList (s : Source) {here : Trail} {n : Node}
    (hn : root.at? here = some n) (i : Nat) : ∀ {a b : Nat} (ns : List Node), n.parts.drop i = ns →
      Node.AllLawful ns → Node.AllLaid a ns b → Rising a (starts (traceParameterList s here i ns)) b
  | a, b, [], _, _, _ => .nil
  | a, b, ⟨kind, role, start, stop, text, parts⟩ :: ms, hs, ⟨⟨_, _, hl⟩, hls⟩, ⟨ha, hlaid, hlaids⟩ => by
    obtain ⟨hm, hms⟩ := part_of_drop hs
    have hm := Node.at?_part hn hm
    have hle : start.byte ≤ stop.byte := hlaid.start_le_stop
    unfold traceParameterList
    rw [starts_append]
    refine Rising.append ?_ (rising_traceParameterList s hn (i + 1) ms hms hls hlaids)
      (Nat.le_trans ha hle) hlaids.le
    split
    case h_1 => exact .nil
    case h_2 =>
      rw [starts_append, (names_parameterSitesOf .left hm 0 parts rfl).starts_eq_nil, List.append_nil]
      exact ((rising_traceRole s .right hm 0 parts rfl hl hlaid).whole hlaid).mono ha (Nat.le_refl _)
    case h_3 =>
      rw [(names_parameterSites _ hm).starts_eq_nil]
      exact .nil
  termination_by structural _ _ ns => ns

end

end

/-! ## What a walk reports -/

/-- Checking a call reports at most one finding, where the call starts. -/
theorem checkCall_found (t : Task) (call : Node) (w : Walk) : (checkCall t call w).found = w.found ∨
    (calledMethod? call).isSome = true ∧
      ∃ d : Diagnostic, d.range.startByte = call.start.byte ∧
        (checkCall t call w).found = w.found ++ [d] := by
  rcases checkCall_cases t call w with ⟨-, h⟩ | ⟨⟨object, method, hcall, -⟩, d, hd, h⟩
  · exact .inl (by rw [h])
  · exact .inr ⟨by rw [hcall]; rfl, d, by rw [hd]; rfl, by rw [h]; rfl⟩

/-- **One step** of a walk reports at most what it checks. -/
theorem event_run_found (t : Task) (site : Site) (w : Walk) : ∃ ds,
    (site.event.run t w).found = w.found ++ ds ∧
      (ds.map (·.range.startByte)).Sublist site.start?.toList := by
  obtain ⟨trail, event⟩ := site
  cases event with
  | enter => exact ⟨[], (List.append_nil _).symm, List.nil_sublist _⟩
  | leave => exact ⟨[], (List.append_nil _).symm, List.nil_sublist _⟩
  | declare name form =>
    refine ⟨[], ?_, List.nil_sublist _⟩
    simp only [Event.run, List.append_nil]
    split <;> rfl
  | check call =>
    rcases checkCall_found t call w with h | ⟨hcall, d, hd, h⟩
    · exact ⟨[], h.trans (List.append_nil _).symm, List.nil_sublist _⟩
    · obtain ⟨names, hnames⟩ := Option.isSome_iff_exists.1 hcall
      exact ⟨[d], h, by simp [Site.start?, hnames, hd]⟩

/-- **A walk** reports at most what it checks, in that order. -/
theorem run_found (t : Task) (sites : List Site) (w : Walk) : ∃ ds,
    (run t sites w).found = w.found ++ ds ∧ (ds.map (·.range.startByte)).Sublist (starts sites) := by
  induction sites generalizing w with
  | nil => exact ⟨[], (List.append_nil _).symm, List.nil_sublist _⟩
  | cons site sites ih =>
    obtain ⟨first, hfirst, hsub⟩ := event_run_found t site w
    obtain ⟨rest, hrest, hsub'⟩ := ih (site.event.run t w)
    refine ⟨first ++ rest, ?_, ?_⟩
    · rw [run_cons, hrest, hfirst, List.append_assoc]
    · rw [List.map_append, starts_cons]
      exact hsub.append hsub'

/-- The findings in a well-formed script, whatever it is read from. -/
theorem pairwise_ofSource {s : Source} (hs : s.WellFormed) (index : SymbolIndex)
    (options : ResolveOptions) :
    (ofSource index options s).Pairwise fun d d' => d.range.startByte < d'.range.startByte := by
  have hroot : s.root.at? [] = some s.root := rfl
  have hrise := rising_trace s s.root hroot hs.lawful hs.laid
  obtain ⟨ds, hfound, hsub⟩ := run_found ⟨s, index, options⟩ (trace s [] s.root) {}
  rw [ofSource, visit_eq_run _ [] s.root {}, hfound]
  exact List.pairwise_map.1 (hrise.pairwise.sublist hsub)

/-- **Findings come in source order**, and no two start at the same byte. -/
theorem findings_in_order (text : String) (index : SymbolIndex) (options : ResolveOptions)
    (found : List Diagnostic) (h : analyze? index options text = some found) :
    found.Pairwise fun d d' => d.range.startByte < d'.range.startByte := by
  obtain ⟨s, hs, rfl⟩ := Option.map_eq_some_iff.1 h
  exact pairwise_ofSource (wellFormed_of_parse? hs) index options

/-- A call among the arguments of another one. -/
theorem findings_in_order_nested :
    ∃ found, analyze? numberLookup {} "db.get(db.get(''), 1)" = some found ∧
      found.map (·.range.startByte) = [0, 7] ∧
      found.Pairwise fun d d' => d.range.startByte < d'.range.startByte := by
  have hbytes : (analyze? numberLookup {} "db.get(db.get(''), 1)").map
      (·.map (·.range.startByte)) = some [0, 7] := by decide +kernel
  obtain ⟨found, h, hbytes⟩ := Option.map_eq_some_iff.1 hbytes
  exact ⟨found, h, hbytes, findings_in_order _ numberLookup {} found h⟩

end Diagnostic

end ScriptAtlas
