/-
What a name means in a call, said without the stack of scopes: the type that it
was bound to last, before the call, by a declaration whose scope is around the
call. Nothing binds it: then it is `any`.

`Agrees` relates the frames of a walk to what was declared so far, one frame for
each open scope. One step of the walk keeps it (`Agrees.step`), so the whole
walk does (`Agrees.run`). With it, `argument_type_eq_resolve`: for every script,
the walk does what its trace lists, and the types that a call is checked with
are, argument by argument, the ones said above.
-/
import Mathlib.Data.List.Forall2
import ScriptAtlas.Proofs.GrammarLaws
import ScriptAtlas.Proofs.TraceScopes

namespace ScriptAtlas

theorem Frame.get?_insert (x name : String) (type : TypeInfo) :
    ∀ f : Frame, Frame.get? x (Frame.insert name type f) =
      if name = x then some type else Frame.get? x f
  | [] => rfl
  | (n, old) :: f => by
    simp only [Frame.insert]
    by_cases hn : n = name
    · subst hn
      simp only [if_true, Frame.get?]
      split <;> rfl
    · simp only [hn, if_false, Frame.get?, Frame.get?_insert x name type f]
      by_cases hx : n = x
      · subst hx
        simp [Ne.symm hn]
      · simp [hx]

theorem Overload.resolve_eq_ok_iff {options : ResolveOptions} {actuals : List TypeInfo}
    {fs : List Function} :
    resolve options actuals fs = .ok () ↔ ∃ f ∈ fs, mismatches options actuals f = [] := by
  simp [resolve]

namespace Diagnostic

open Script

/-! ## What is declared, seen from a place -/

/-- How a name is declared in the scopes around a place, in the order of the walk. -/
def declarations (root : Node) (place : Trail) (name : String) (sites : List Site) : List Form :=
  sites.filterMap fun site =>
    match site.event with
    | .declare n form =>
      if n = name ∧ root.scopeAround site.trail <+: place then some form else none
    | _ => none

/-- The type that a name is bound to, seen from a place: the last one. -/
def boundType? (root : Node) (place : Trail) (name : String) (sites : List Site) :
    Option TypeInfo :=
  ((declarations root place name sites).filterMap Form.bound?).getLast?

/-- The type of a name, seen from a place. -/
def resolve (root : Node) (place : Trail) (name : String) (sites : List Site) : TypeInfo :=
  (boundType? root place name sites).getD .any

section

variable {root : Node} {here place : Trail} {name x : String} {form : Form} {sites : List Site}

theorem mem_declarations :
    form ∈ declarations root place x sites ↔
      ∃ site ∈ sites, site.event = .declare x form ∧ root.scopeAround site.trail <+: place := by
  simp only [declarations, List.mem_filterMap]
  refine exists_congr fun site => and_congr_right fun _ => ?_
  cases site.event <;> simp
  grind

/-- From inside the scope around a place the same is seen as from the place, as long as nothing was
done in the place itself. -/
theorem declarations_scopeAround (h : ∀ site ∈ sites, ¬ place <+: site.trail) :
    declarations root (root.scopeAround place) x sites = declarations root place x sites := by
  refine List.filterMap_congr fun site hs => ?_
  have hiff : root.scopeAround site.trail <+: root.scopeAround place ↔
      root.scopeAround site.trail <+: place := by
    refine ⟨fun hp => hp.trans (Node.scopeAround_leads root place), fun hp => ?_⟩
    refine Node.leads_scopeAround (Node.scopeAround_opens root site.trail) hp fun he => ?_
    exact h site hs (he ▸ Node.scopeAround_leads root site.trail)
  simp only [hiff]

theorem boundType?_scopeAround (h : ∀ site ∈ sites, ¬ place <+: site.trail) :
    boundType? root (root.scopeAround place) x sites = boundType? root place x sites := by
  rw [boundType?, declarations_scopeAround h, boundType?]

/-- What is not bound for an inner scope is not bound for an outer one. -/
theorem boundType?_eq_none_outside {inner outer : Trail} (hp : outer <+: inner)
    (h : boundType? root inner x sites = none) : boundType? root outer x sites = none := by
  simp only [boundType?, List.getLast?_eq_none_iff, List.filterMap_eq_nil_iff,
    mem_declarations] at h ⊢
  rintro form ⟨site, hs, he, hsc⟩
  exact h form ⟨site, hs, he, hsc.trans hp⟩

/-- One more declaration. -/
theorem boundType?_declare :
    boundType? root place x (sites ++ [⟨here, .declare name form⟩]) =
      if name = x ∧ root.scopeAround here <+: place then
        form.bound?.or (boundType? root place x sites)
      else boundType? root place x sites := by
  simp only [boundType?, declarations, List.filterMap_append]
  split
  · rename_i h
    cases hb : form.bound? <;> simp [h, hb]
  · rename_i h
    simp [h]

/-- Anything else changes nothing. -/
theorem boundType?_skip {site : Site} (h : ∀ name form, site.event ≠ .declare name form) :
    boundType? root place x (sites ++ [site]) = boundType? root place x sites := by
  obtain ⟨trail, event⟩ := site
  cases event with
  | declare name form => exact absurd rfl (h name form)
  | _ => simp [boundType?, declarations]

end

/-! ## What a check does -/

/-- The overloads that a walk knows of a method. -/
def Task.overloads (t : Task) (object method : String) : List Function :=
  ((t.index.lookup object).map (·.overloads method)).getD []

/-- Overloads are known of the method that the call names, and none of them takes the call. -/
def Rejected (t : Task) (scopes : ScopeStack) (call : Node) : Prop :=
  ∃ object method, calledMethod? call = some (object, method) ∧ t.overloads object method ≠ [] ∧
    ∀ f ∈ t.overloads object method, Overload.mismatches t.options (actuals scopes call) f ≠ []

section

variable {t : Task} {scopes : ScopeStack} {call : Node} {object method : String}

theorem rejected_iff (hcall : calledMethod? call = some (object, method))
    (hknown : t.overloads object method ≠ []) : Rejected t scopes call ↔
      Overload.resolve t.options (actuals scopes call) (t.overloads object method) ≠ .ok () := by
  simp only [ne_eq, Overload.resolve_eq_ok_iff, not_exists, not_and]
  constructor
  · rintro ⟨_, _, hcall', -, hall⟩
    obtain ⟨rfl, rfl⟩ := Prod.mk.inj (Option.some.inj (hcall.symm.trans hcall'))
    exact hall
  · intro hall
    exact ⟨object, method, hcall, hknown, hall⟩

/-- **A check** reports a call that is rejected, and does nothing else. -/
theorem checkCall_cases (t : Task) (call : Node) (w : Walk) :
    ¬ Rejected t w.scopes call ∧ checkCall t call w = w ∨
    Rejected t w.scopes call ∧ ∃ d : Diagnostic,
      d.range = .ofNode t.source.text.toList call ∧ checkCall t call w = w.report d := by
  unfold checkCall
  split
  · rename_i hcall
    exact .inl ⟨by simp [Rejected, hcall], rfl⟩
  · rename_i object method hcall
    rw [← Task.overloads]
    split
    · rename_i hnone
      exact .inl ⟨by simp [Rejected, hcall, hnone], rfl⟩
    · rename_i hknown
      split
      · rename_i hok
        exact .inl ⟨fun h => (rejected_iff hcall hknown).1 h hok, rfl⟩
      · rename_i herror
        exact .inr ⟨(rejected_iff hcall hknown).2 (by simp [herror]), _, rfl, rfl⟩

theorem checkCall_scopes (t : Task) (call : Node) (w : Walk) :
    (checkCall t call w).scopes = w.scopes := by
  rcases checkCall_cases t call w with ⟨-, h⟩ | ⟨-, d, -, h⟩ <;> rw [h]
  rfl

/-- Nothing is reported of a call whose method has overloads exactly if one of them takes it. -/
theorem found_checkCall_iff (hcall : calledMethod? call = some (object, method))
    (hknown : t.overloads object method ≠ []) (w : Walk) :
    (checkCall t call w).found = w.found ↔
      Overload.resolve t.options (actuals w.scopes call) (t.overloads object method) = .ok () := by
  have hrejected : Rejected t w.scopes call ↔ _ := rejected_iff hcall hknown
  rcases checkCall_cases t call w with ⟨hnot, h⟩ | ⟨hyes, d, -, h⟩
  · exact iff_of_true (by rw [h]) (not_not.1 fun hne => hnot (hrejected.2 hne))
  · exact iff_of_false (by simp [h, Walk.report]) (hrejected.1 hyes)

end

/-! ## Frames and what they stand for -/

/-- The frame has the types that are bound for the scope. -/
def Shows (root : Node) (done : List Site) (scope : Trail) (frame : Frame) : Prop :=
  ∀ x, Frame.get? x frame = boundType? root scope x done

/-- Each frame of the stack shows one scope, of scopes that lie one inside the other. -/
structure Agrees (root : Node) (done : List Site) (scopes : List Trail) (stack : ScopeStack) : Prop where
  frames : List.Forall₂ (Shows root done) scopes (stack.top :: stack.below)
  nested : scopes.Pairwise fun inner outer => outer <+: inner ∧ outer ≠ inner

section

variable {root : Node} {done : List Site} {here scope : Trail} {scopes : List Trail}
  {frame : Frame} {frames : List Frame}

theorem Shows.skip {site : Site} (h : ∀ name form, site.event ≠ .declare name form)
    (hf : Shows root done scope frame) : Shows root (done ++ [site]) scope frame :=
  fun x => (hf x).trans (boundType?_skip h).symm

/-- What is declared elsewhere does not show. -/
theorem Shows.elsewhere (hn : ¬ root.scopeAround here <+: scope) (name : String) (form : Form)
    (hf : Shows root done scope frame) :
    Shows root (done ++ [⟨here, .declare name form⟩]) scope frame := by
  intro x
  rw [boundType?_declare, if_neg fun h => hn h.2, hf x]

theorem Shows.untyped (name : String) {form : Form} (hb : form.bound? = none)
    (hf : Shows root done scope frame) :
    Shows root (done ++ [⟨here, .declare name form⟩]) scope frame := by
  intro x
  rw [boundType?_declare, hb, Option.none_or, ite_self, hf x]

theorem Shows.insert (name : String) {form : Form} {type : TypeInfo} (hb : form.bound? = some type)
    (hf : Shows root done (root.scopeAround here) frame) :
    Shows root (done ++ [⟨here, .declare name form⟩]) (root.scopeAround here)
      (Frame.insert name type frame) := by
  intro x
  rw [Frame.get?_insert, boundType?_declare, hb, hf x]
  simp

theorem findSome?_get?_eq_none {x : String} (hn : boundType? root scope x done = none)
    (hf : List.Forall₂ (Shows root done) scopes frames) (ho : ∀ outer ∈ scopes, outer <+: scope) :
    frames.findSome? (Frame.get? x) = none := by
  induction hf with
  | nil => rfl
  | cons hg _ ih =>
    rw [List.findSome?_cons, hg x, boundType?_eq_none_outside (ho _ (by simp)) hn]
    exact ih fun outer h => ho outer (by simp [h])

theorem forall₂_shows_elsewhere (hn : ∀ outer ∈ scopes, ¬ root.scopeAround here <+: outer)
    (name : String) (form : Form) (hf : List.Forall₂ (Shows root done) scopes frames) :
    List.Forall₂ (Shows root (done ++ [⟨here, .declare name form⟩])) scopes frames := by
  induction hf with
  | nil => exact .nil
  | cons hg _ ih =>
    exact .cons (hg.elsewhere (hn _ (by simp)) name form) (ih fun outer h => hn outer (by simp [h]))

end

namespace Agrees

variable {t : Task} {root : Node} {done sites : List Site} {here scope : Trail}
  {scopes next last outer : List Trail} {site : Site} {stack : ScopeStack} {w : Walk}

/-- What is looked up is what is bound for the innermost scope. -/
theorem lookup (h : Agrees root done (scope :: outer) stack) (x : String) :
    stack.lookup x = boundType? root scope x done := by
  obtain ⟨htop, hbelow⟩ := List.forall₂_cons.1 h.frames
  rw [ScopeStack.lookup, List.findSome?_cons, htop x]
  cases hb : boundType? root scope x done with
  | some type => rfl
  | none =>
    exact findSome?_get?_eq_none hb hbelow fun o ho => ((List.pairwise_cons.1 h.nested).1 o ho).1

theorem skip (hs : ∀ name form, site.event ≠ .declare name form)
    (h : Agrees root done scopes stack) : Agrees root (done ++ [site]) scopes stack :=
  ⟨h.frames.imp fun _ _ hf => hf.skip hs, h.nested⟩

/-- A new frame starts with what was bound around the place. -/
theorem push (hne : here ≠ []) (hfresh : ∀ site ∈ done, ¬ here <+: site.trail)
    (h : Agrees root done (root.scopeAround here :: outer) stack) :
    Agrees root done (here :: root.scopeAround here :: outer) stack.push := by
  obtain ⟨htop, hbelow⟩ := List.forall₂_cons.1 h.frames
  refine ⟨.cons (fun x => ?_) (.cons htop hbelow), List.pairwise_cons.2 ⟨?_, h.nested⟩⟩
  · exact (htop x).trans (boundType?_scopeAround hfresh)
  · have hlead := Node.scopeAround_leads root here
    rintro o (_ | ⟨_, ho⟩)
    · exact ⟨hlead, Node.scopeAround_ne root hne⟩
    · obtain ⟨hp, hne'⟩ := (List.pairwise_cons.1 h.nested).1 o ho
      refine ⟨hp.trans hlead, ?_⟩
      rintro rfl
      exact hne' (hp.eq_of_length_le hlead.length_le)

theorem pop {inner : Trail} (h : Agrees root done (inner :: scope :: outer) stack) :
    Agrees root done (scope :: outer) stack.pop := by
  obtain ⟨top, below⟩ := stack
  obtain ⟨_, hbelow⟩ := List.forall₂_cons.1 h.frames
  cases hbelow with
  | cons hf hfs => exact ⟨.cons hf hfs, h.nested.of_cons⟩

/-- What is declared in the innermost scope shows in the innermost frame only. -/
theorem declare (name : String) (form : Form)
    (h : Agrees root done (root.scopeAround here :: outer) w.scopes) :
    Agrees root (done ++ [⟨here, .declare name form⟩]) (root.scopeAround here :: outer)
      (Event.run t (.declare name form) w).scopes := by
  obtain ⟨htop, hbelow⟩ := List.forall₂_cons.1 h.frames
  have apart : ∀ o ∈ outer, ¬ root.scopeAround here <+: o := by
    intro o ho hle
    obtain ⟨hp, hne⟩ := (List.pairwise_cons.1 h.nested).1 o ho
    exact hne (hp.eq_of_length_le hle.length_le)
  have outside := forall₂_shows_elsewhere apart name form hbelow
  refine ⟨?_, h.nested⟩
  simp only [Event.run]
  split
  · rename_i type hb
    exact .cons (htop.insert name hb) outside
  · rename_i hb
    exact .cons (htop.untyped name hb) outside

/-- **One step** of a walk. -/
theorem step (hstep : ScopeStep root scopes site next)
    (hfresh : ∀ earlier ∈ done, site.event.looksAround = true → ¬ site.trail <+: earlier.trail)
    (h : Agrees root done scopes w.scopes) :
    Agrees root (done ++ [site]) next (site.event.run t w).scopes := by
  cases hstep with
  | enter hne hsc =>
    subst hsc
    exact (h.push hne fun site hs => hfresh site hs rfl).skip nofun
  | leave => exact h.pop.skip nofun
  | declare name form hsc =>
    subst hsc
    exact h.declare name form
  | check call hsc =>
    simp only [Event.run, checkCall_scopes]
    exact h.skip nofun

/-- **A walk** keeps frames and scopes in agreement. -/
theorem run (hpath : ScopePath root scopes sites last)
    (hfresh : (done ++ sites).Pairwise fun earlier later =>
      later.event.looksAround = true → ¬ later.trail <+: earlier.trail)
    (h : Agrees root done scopes w.scopes) :
    Agrees root (done ++ sites) last (Diagnostic.run t sites w).scopes := by
  induction hpath generalizing done w with
  | nil => simpa using h
  | @cons _ _ _ site rest hstep _ ih =>
    have hsite : ∀ earlier ∈ done, site.event.looksAround = true → ¬ site.trail <+: earlier.trail :=
      fun earlier he => (List.pairwise_append.1 hfresh).2.2 earlier he site (by simp)
    have hnext := ih (by simpa using hfresh) (h.step (t := t) hstep hsite)
    simpa using hnext

end Agrees

/-! ## Names in checked calls -/

section

variable {s : Source} {t : Task} {before after : List Site} {here : Trail} {call : Node}

/-- The scope of the file is open when a walk starts, and nothing is bound in it. -/
theorem agrees_start (root : Node) : Agrees root [] [[]] {} :=
  ⟨.cons (fun _ => rfl) .nil, List.pairwise_singleton _ _⟩

theorem opensAt_root (hs : s.WellFormed) : s.root.opensAt [] = false :=
  Node.opensAt_eq_false (n := s.root) rfl (by rw [hs.kind]; rfl)

theorem tidy_root (hs : s.WellFormed) :
    Tidy s.root ([] <+: ·) (s.root.scopeAround []) (trace s [] s.root) :=
  tidy_trace (opensAt_root hs) s s.root rfl hs.lawful

/-- What the stack of a walk has for a name when a call is checked. -/
theorem lookup_at_check (hs : s.WellFormed)
    (hsplit : trace s [] s.root = before ++ ⟨here, .check call⟩ :: after) (x : String) :
    (run t before {}).scopes.lookup x = boundType? s.root here x before := by
  have htidy := tidy_root hs
  rw [hsplit] at htidy
  obtain ⟨scopes, hbefore, hafter⟩ := (htidy.path []).split
  have hagrees := (agrees_start s.root).run (t := t) (w := {}) hbefore
    (htidy.fresh.sublist (List.sublist_append_left _ _))
  rw [List.nil_append] at hagrees
  cases hafter with
  | cons hstep _ =>
    cases hstep with
    | check _ hsc =>
      subst hsc
      rw [hagrees.lookup x]
      refine boundType?_scopeAround fun site hsite => ?_
      exact (List.pairwise_append.1 htidy.fresh).2.2 site hsite _ List.mem_cons_self rfl

/-- The type that an argument has at a place, after what was done before. -/
inductive ArgumentType (root : Node) (here : Trail) (before : List Site) : Node → TypeInfo → Prop
  | literal {arg : Node} {literal : LiteralKind} (h : arg.kind.literal? = some literal) :
    ArgumentType root here before arg literal.type
  | name {arg : Node} (h : arg.kind = .identifier) :
    ArgumentType root here before arg (resolve root here arg.text before)
  | other {arg : Node} (hl : arg.kind.literal? = none) (hn : arg.kind ≠ .identifier) :
    ArgumentType root here before arg .any

theorem ArgumentType.eq_resolve {root arg : Node} {type : TypeInfo}
    (h : ArgumentType root here before arg type) (hk : arg.kind = .identifier) :
    type = resolve root here arg.text before := by
  cases h with
  | literal hl => rw [hk] at hl; cases hl
  | name => rfl
  | other _ hn => exact absurd hk hn

/-- The arguments of a call. -/
def argumentsOf (call : Node) : List Node := ((call.child? .arguments).map Node.named).getD []

theorem actuals_eq_map (scopes : ScopeStack) (call : Node) :
    actuals scopes call = (argumentsOf call).map (actualType scopes) := by
  unfold actuals argumentsOf
  cases call.child? .arguments <;> rfl

theorem argumentType_at_check (hs : s.WellFormed)
    (hsplit : trace s [] s.root = before ++ ⟨here, .check call⟩ :: after) (arg : Node) :
    ArgumentType s.root here before arg (actualType (run t before {}).scopes arg) := by
  unfold actualType
  split
  · rename_i hl
    exact .literal hl
  · rename_i hl
    split
    · rename_i hn
      rw [lookup_at_check hs hsplit]
      exact .name hn
    · rename_i hn
      exact .other hl hn

/-- **The types that a call is checked with**, one for each argument. -/
theorem argumentTypes_at_check (hs : s.WellFormed)
    (hsplit : trace s [] s.root = before ++ ⟨here, .check call⟩ :: after) :
    List.Forall₂ (ArgumentType s.root here before) (argumentsOf call)
      (actuals (run t before {}).scopes call) := by
  rw [actuals_eq_map, List.forall₂_map_right_iff, List.forall₂_same]
  exact fun arg _ => argumentType_at_check hs hsplit arg

end

/-- **The types of the arguments** of a checked call. A name has the type that it was bound to last,
before the call, by a declaration whose scope is around the call; without one it is `any`. These types
decide whether one of the overloads takes the call, and if none does the call is reported. The walk of
a script is what its trace lists, and whatever the trace lists stands in the tree where it says. -/
theorem argument_type_eq_resolve (text : String) (s : Source) (h : Source.parse? text = some s)
    (index : SymbolIndex) (options : ResolveOptions) :
    let t : Task := ⟨s, index, options⟩
    visit t s.root {} = run t (trace s [] s.root) {} ∧
      (∀ site ∈ trace s [] s.root, site.Stands s.root) ∧
      ∀ before here call after, trace s [] s.root = before ++ ⟨here, .check call⟩ :: after →
        let w := run t before {}
        let types := actuals w.scopes call
        List.Forall₂ (ArgumentType s.root here before) (argumentsOf call) types ∧
          ∀ object method, calledMethod? call = some (object, method) →
            t.overloads object method ≠ [] → ((checkCall t call w).found = w.found ↔
              Overload.resolve options types (t.overloads object method) = .ok ()) := by
  have hs := wellFormed_of_parse? h
  refine ⟨visit_eq_run _ [] s.root {}, (tidy_root hs).stands, fun before here call after hsplit => ?_⟩
  exact ⟨argumentTypes_at_check hs hsplit, fun _ _ hcall hknown => found_checkCall_iff hcall hknown _⟩

/-- An index with one function, `db.get`, that takes a number. -/
def numberLookup : SymbolIndex :=
  SymbolIndex.insert {}
    { name := "db"
      functions := [{ name := "get", params := [⟨"id", .named "number", "", false⟩]
                      returns := .void, description := "", location := none }] }

/-- A default value, a parameter and a block that bind the same name. -/
def nestedScopes : String :=
  "var x = 1; function f(y = db.get(x), x) \x7b \x7b var x = ''; db.get(x); \x7d db.get(x) \x7d"

/-- The place and the call of a check, if that is what step `k` of a walk is. -/
def checkAt? (s : Source) (k : Nat) : Option (Trail × Node) :=
  (trace s [] s.root)[k]?.bind fun site =>
    match site.event with
    | .check call => some (site.trail, call)
    | _ => none

theorem split_of_checkAt? {s : Source} {k : Nat} {here : Trail} {call : Node}
    (h : checkAt? s k = some (here, call)) : trace s [] s.root =
      (trace s [] s.root).take k ++ ⟨here, .check call⟩ :: (trace s [] s.root).drop (k + 1) := by
  obtain ⟨⟨trail, event⟩, hat, hevent⟩ := Option.bind_eq_some_iff.1 h
  obtain ⟨hlt, hat⟩ := List.getElem?_eq_some_iff.1 hat
  have hsplit := (List.take_append_drop k (trace s [] s.root)).symm
  rw [List.drop_eq_getElem_cons hlt, hat] at hsplit
  cases event with
  | check c =>
    obtain ⟨rfl, rfl⟩ := Prod.mk.inj (Option.some.inj hevent)
    exact hsplit
  | enter | leave | declare => cases hevent

/-- The name is a number for the default value, a string in the block, and not known after it. Only
the string is reported. -/
theorem nestedScopes_argument_types :
    ∃ s, Source.parse? nestedScopes = some s ∧
      ∀ x ∈ [(2, TypeInfo.named "number"), (8, .named "string"), (10, .any)],
        ∃ here call, checkAt? s x.1 = some (here, call) ∧
          let w := run ⟨s, numberLookup, {}⟩ ((trace s [] s.root).take x.1) {}
          actuals w.scopes call = [x.2] ∧
            ((checkCall ⟨s, numberLookup, {}⟩ call w).found = w.found ↔ x.2 ≠ .named "string") := by
  have hfacts : ∀ x ∈ [(2, TypeInfo.named "number"), (8, .named "string"), (10, .any)],
      (Source.parse? nestedScopes).bind (fun s => (checkAt? s x.1).map fun (here, call) =>
        (calledMethod? call, (argumentsOf call).map fun arg =>
          (arg.kind, resolve s.root here arg.text ((trace s [] s.root).take x.1)))) =
      some (some ("db", "get"), [(.identifier, x.2)]) := by decide +kernel
  have hknown : Task.overloads ⟨default, numberLookup, {}⟩ "db" "get" ≠ [] := by decide +kernel
  have hfits : ∀ x ∈ [(2, TypeInfo.named "number"), (8, .named "string"), (10, .any)],
      ((∃ f ∈ Task.overloads ⟨default, numberLookup, {}⟩ "db" "get",
        Overload.mismatches {} [x.2] f = []) ↔ x.2 ≠ .named "string") := by decide +kernel
  obtain ⟨s, h, -⟩ := Option.bind_eq_some_iff.1 (hfacts _ List.mem_cons_self)
  refine ⟨s, h, fun x hx => ?_⟩
  have hfact := hfacts x hx
  rw [h, Option.bind_some] at hfact
  obtain ⟨⟨here, call⟩, hat, hfact⟩ := Option.map_eq_some_iff.1 hfact
  obtain ⟨hcall, hargs⟩ := Prod.mk.inj hfact
  obtain ⟨arg, harg, hargs⟩ := List.map_eq_singleton_iff.1 hargs
  obtain ⟨hk, hresolve⟩ := Prod.mk.inj hargs
  obtain ⟨htypes, hcheck⟩ := (argument_type_eq_resolve nestedScopes s h numberLookup {}).2.2 _ here
    call _ (split_of_checkAt? hat)
  rw [harg] at htypes
  obtain ⟨type, rest, htype, hrest, hactuals⟩ := List.forall₂_cons_left_iff.1 htypes
  obtain rfl := List.forall₂_nil_left_iff.1 hrest
  obtain rfl : type = x.2 := (htype.eq_resolve hk).trans hresolve
  refine ⟨here, call, hat, hactuals, ?_⟩
  rw [hcheck "db" "get" hcall hknown, hactuals, Overload.resolve_eq_ok_iff]
  exact hfits x hx

/-! ## Names without a type -/

/-- The type that a declaration gives to a name, by a doc comment or a literal. -/
def Form.carried? : Form → Option TypeInfo
  | declarator type => type
  | patternDeclarator declared => declared
  | parameter | patternParameter => none

/-- The type of a name whose last declaration gives none. -/
theorem resolve_of_untyped {root : Node} {here : Trail} {x : String} {before : List Site}
    {earlier : List Form} {nearest : Form}
    (hnear : declarations root here x before = earlier ++ [nearest])
    (huntyped : nearest.carried? = none) : resolve root here x before =
      if nearest = .parameter then .any else ((earlier.filterMap Form.bound?).getLast?).getD .any := by
  simp only [resolve, boundType?, hnear, List.filterMap_append, List.filterMap_cons,
    List.filterMap_nil]
  cases nearest with
  | declarator type =>
    obtain rfl : type = none := huntyped
    simp [Form.bound?]
  | parameter => simp [Form.bound?]
  | patternDeclarator | patternParameter => simp [Form.bound?]

/-- **A declaration without a type** hides what the name was bound to before only if it is a
parameter that names it. A declarator and a pattern hide nothing: among the types that a call is
checked with, the name still has the one that the declarations before this one give it. -/
theorem untyped_declaration_leaves_type (text : String) (s : Source)
    (h : Source.parse? text = some s) (index : SymbolIndex) (options : ResolveOptions)
    (before after : List Site) (here : Trail) (call : Node)
    (hsplit : trace s [] s.root = before ++ ⟨here, .check call⟩ :: after)
    (arg : Node) (harg : arg.kind = .identifier) (earlier : List Form) (nearest : Form)
    (hnear : declarations s.root here arg.text before = earlier ++ [nearest])
    (huntyped : nearest.carried? = none) :
    let scopes := (run ⟨s, index, options⟩ before {}).scopes
    let type := if nearest = .parameter then .any
      else ((earlier.filterMap Form.bound?).getLast?).getD .any
    actualType scopes arg = type ∧
      ∀ k : Nat, (argumentsOf call)[k]? = some arg → (actuals scopes call)[k]? = some type := by
  intro scopes type
  have htype : actualType scopes arg = type := by
    rw [(argumentType_at_check (wellFormed_of_parse? h) hsplit arg).eq_resolve harg]
    exact resolve_of_untyped hnear huntyped
  refine ⟨htype, fun k hk => ?_⟩
  rw [actuals_eq_map, List.getElem?_map, hk, Option.map_some, htype]

/-- A name of known type, and one in a block whose type is not known. -/
def shadowedName : String := "var id = 's'; \x7b var id = f(); db.get(id); \x7d"

/-- The declaration in the block is the nearest one and has no type, and still the call is found
fault with for the type that the name has outside of the block. -/
theorem shadowedName_keeps_type :
    (Source.parse? shadowedName).map (fun s =>
      (declarations s.root [1, 1, 0] "id" (trace s [] s.root),
        (ofSource numberLookup {} s).map (·.message))) =
      some ([.declarator (some (.named "string")), .declarator none],
        ["No matching overload found for function 'db.get'.\nArgument 1 ('id'): expected number, got string"]) := by
  decide +kernel

theorem shadowedName_argument_type :
    ∃ s here call, Source.parse? shadowedName = some s ∧ checkAt? s 4 = some (here, call) ∧
      declarations s.root here "id" ((trace s [] s.root).take 4) =
        [.declarator (some (.named "string"))] ++ [.declarator none] ∧
      actuals (run ⟨s, numberLookup, {}⟩ ((trace s [] s.root).take 4) {}).scopes call =
        [.named "string"] := by
  have hfacts : (Source.parse? shadowedName).bind (fun s => (checkAt? s 4).map fun (here, call) =>
      (declarations s.root here "id" ((trace s [] s.root).take 4),
        (argumentsOf call).map fun arg => (arg.kind, arg.text))) =
      some ([.declarator (some (.named "string"))] ++ [.declarator none], [(.identifier, "id")]) := by
    decide +kernel
  obtain ⟨s, h, hfacts⟩ := Option.bind_eq_some_iff.1 hfacts
  obtain ⟨⟨here, call⟩, hat, hfacts⟩ := Option.map_eq_some_iff.1 hfacts
  obtain ⟨hnear, hargs⟩ := Prod.mk.inj hfacts
  obtain ⟨arg, harg, hargs⟩ := List.map_eq_singleton_iff.1 hargs
  obtain ⟨hk, htext⟩ := Prod.mk.inj hargs
  refine ⟨s, here, call, h, hat, hnear, ?_⟩
  have hentry := (untyped_declaration_leaves_type shadowedName s h numberLookup {} _ _ here call
    (split_of_checkAt? hat) arg hk _ _ (htext ▸ hnear) rfl).2 0 (by rw [harg]; rfl)
  rw [actuals_eq_map, harg] at hentry ⊢
  simpa [Form.bound?] using hentry

end Diagnostic

end ScriptAtlas
