/-
A looser check never finds more. Two walks of one script bind the same names to
the same types, whatever the index and the options are, so they come to each
call with the same argument types. If every call that the looser one rejects is
rejected by the stricter one as well (`Stricter`), then the calls reported by
the looser one are among those reported by the stricter one: one step keeps that
(`Covers.step`), and so does a whole walk (`Covers.run`).

Two ways to be looser are shown: to take arguments of type `unknown`, and to know
one more overload of a method. The reasons that are reported may differ, since
they are those of the overload that is missed least.
-/
import ScriptAtlas.Proofs.ExtractedArity
import ScriptAtlas.Proofs.ScopeResolution

namespace ScriptAtlas

/-! ## Overloads that take a call -/

namespace Overload

section

variable {options options' : ResolveOptions} {p : Param} {a : TypeInfo} {ps : List Param}
  {actuals : List TypeInfo} {f : Function} {fs fs' : List Function} {i : Nat}

theorem badArguments_eq_nil_iff : badArguments options i ps actuals = [] ↔
    actuals.length ≤ ps.length ∧ ∀ x ∈ ps.zip actuals, accepts options x.1 x.2 = true := by
  induction actuals generalizing i ps with
  | nil => simp [badArguments]
  | cons a actuals ih =>
    cases ps with
    | nil => simp [badArguments]
    | cons p ps =>
      by_cases ha : accepts options p a = true
      · simp [badArguments, ha, ih]
      · simp [badArguments, ha]

/-- A call fits a function when it gives neither too few nor too many arguments and each is taken. -/
theorem mismatches_eq_nil_iff : mismatches options actuals f = [] ↔
    f.requiredCount ≤ actuals.length ∧ actuals.length ≤ f.params.length ∧
      ∀ x ∈ f.params.zip actuals, accepts options x.1 x.2 = true := by
  rw [mismatches, List.append_eq_nil_iff, badArguments_eq_nil_iff, badCount_eq_nil_iff]
  tauto

theorem accepts_mono (h : options.allowUnknown = true → options'.allowUnknown = true)
    (ha : accepts options p a = true) : accepts options' p a = true := by
  simp only [accepts, Bool.or_eq_true, Bool.and_eq_true] at ha ⊢
  tauto

theorem mismatches_mono (h : options.allowUnknown = true → options'.allowUnknown = true)
    (hf : mismatches options actuals f = []) : mismatches options' actuals f = [] := by
  rw [mismatches_eq_nil_iff] at hf ⊢
  exact ⟨hf.1, hf.2.1, fun x hx => accepts_mono h (hf.2.2 x hx)⟩

end

end Overload

namespace Diagnostic

open Script

/-! ## Rejected calls -/

/-- The ranges of what a walk has reported. -/
def Walk.ranges (w : Walk) : List SourceRange := w.found.map (·.range)

/-- A check reports the range of a call that is rejected, and nothing else. -/
theorem ranges_checkCall (t : Task) (call : Node) (w : Walk) :
    Rejected t w.scopes call ∧
      (checkCall t call w).ranges = w.ranges ++ [.ofNode t.source.text.toList call] ∨
    ¬ Rejected t w.scopes call ∧ (checkCall t call w).ranges = w.ranges := by
  rcases checkCall_cases t call w with ⟨hnot, h⟩ | ⟨hrejected, d, hd, h⟩
  · exact .inr ⟨hnot, by rw [h]⟩
  · exact .inl ⟨hrejected, by simp [h, Walk.ranges, Walk.report, hd]⟩

/-! ## Two walks of one script -/

/-- Whatever the second walk rejects, the first one rejects. -/
structure Stricter (t t' : Task) : Prop where
  source : t'.source = t.source
  rejects : ∀ scopes call, Rejected t' scopes call → Rejected t scopes call

/-- The walks are at the same point, and the first one has reported what the second one has. -/
structure Covers (w w' : Walk) : Prop where
  scopes : w'.scopes = w.scopes
  ranges : w'.ranges.Sublist w.ranges

section

variable {t t' : Task} {w w' : Walk}

theorem Covers.check (ht : Stricter t t') (h : Covers w w') (call : Node) :
    Covers (checkCall t call w) (checkCall t' call w') := by
  refine ⟨by rw [checkCall_scopes, checkCall_scopes, h.scopes], ?_⟩
  have hkeeps : w.ranges.Sublist (checkCall t call w).ranges := by
    rcases ranges_checkCall t call w with ⟨-, hr⟩ | ⟨-, hr⟩
    · exact hr ▸ List.sublist_append_left _ _
    · exact hr ▸ List.Sublist.refl _
  rcases ranges_checkCall t' call w' with ⟨hrejected, hr'⟩ | ⟨-, hr'⟩
  · have hrejected := ht.rejects _ _ (h.scopes ▸ hrejected)
    rcases ranges_checkCall t call w with ⟨-, hr⟩ | ⟨hnot, -⟩
    · rw [hr, hr', ht.source]
      exact h.ranges.append_right _
    · exact absurd hrejected hnot
  · exact hr' ▸ h.ranges.trans hkeeps

/-- **One step** of both walks. -/
theorem Covers.step (ht : Stricter t t') (h : Covers w w') (e : Event) :
    Covers (e.run t w) (e.run t' w') := by
  cases e with
  | enter => exact ⟨congrArg ScopeStack.push h.scopes, h.ranges⟩
  | leave => exact ⟨congrArg ScopeStack.pop h.scopes, h.ranges⟩
  | declare name form =>
    simp only [Event.run]
    split
    · rename_i type _
      exact ⟨congrArg (ScopeStack.bind · name type) h.scopes, h.ranges⟩
    · exact h
  | check call => exact h.check ht call

/-- **Both walks**, from the same start. -/
theorem Covers.run (ht : Stricter t t') (h : Covers w w') (sites : List Site) :
    Covers (run t sites w) (run t' sites w') := by
  induction sites generalizing w w' with
  | nil => exact h
  | cons site sites ih => exact ih (h.step ht site.event)

end

/-- The calls that the looser walk of a script reports are among those that the stricter one
reports, in the same order. -/
theorem ranges_ofSource_sublist {s : Source} {index index' : SymbolIndex}
    {options options' : ResolveOptions} (h : Stricter ⟨s, index, options⟩ ⟨s, index', options'⟩) :
    ((ofSource index' options' s).map (·.range)).Sublist ((ofSource index options s).map (·.range)) := by
  have hstart : Covers {} {} := ⟨rfl, List.Sublist.refl _⟩
  have hwalks := (hstart.run h (trace s [] s.root)).ranges
  rw [ofSource, ofSource, visit_eq_run _ [], visit_eq_run _ []]
  exact hwalks

/-! ## Looser options -/

theorem Stricter.of_options {s : Source} {index : SymbolIndex} {options options' : ResolveOptions}
    (h : options.allowUnknown = true → options'.allowUnknown = true) :
    Stricter ⟨s, index, options⟩ ⟨s, index, options'⟩ where
  source := rfl
  rejects := by
    rintro scopes call ⟨object, method, hcall, hsome, hall⟩
    exact ⟨object, method, hcall, hsome, fun f hf hfits =>
      hall f hf (Overload.mismatches_mono h hfits)⟩

/-! ## One more overload -/

/-- Where one walk knows overloads of a method the other one knows them too, and it knows no others. -/
theorem Stricter.of_overloads {s : Source} {index index' : SymbolIndex} {options : ResolveOptions}
    (h : ∀ object method,
      let known := Task.overloads ⟨s, index, options⟩ object method
      let known' := Task.overloads ⟨s, index', options⟩ object method
      (known' ≠ [] → known ≠ []) ∧ known ⊆ known') :
    Stricter ⟨s, index, options⟩ ⟨s, index', options⟩ where
  source := rfl
  rejects := by
    rintro scopes call ⟨object, method, hcall, hsome, hall⟩
    obtain ⟨hknown, hsub⟩ := h object method
    exact ⟨object, method, hcall, hknown hsome, fun f hf => hall f (hsub hf)⟩

end Diagnostic

/-- The index with another object in the place of the one that stands there. -/
def SymbolIndex.replaceAt (x : SymbolIndex) (i : Nat) (o : ScriptObject) : SymbolIndex :=
  { x with objects := x.objects.set i o }

/-- A name is looked up as before, or it leads to the place where the other object stands. -/
theorem SymbolIndex.lookup_replaceAt {x : SymbolIndex} {i : Nat} {o : ScriptObject}
    (ho : x.objects[i]? = some o) (o' : ScriptObject) (name : String) :
    (x.replaceAt i o').lookup name = x.lookup name ∨
      x.lookup name = some o ∧ (x.replaceAt i o').lookup name = some o' := by
  have hlt := (List.getElem?_eq_some_iff.1 ho).1
  simp only [lookup]
  rw [show (x.replaceAt i o').place? name = x.place? name from rfl]
  cases x.place? name with
  | none => exact .inl rfl
  | some j =>
    simp only [Option.bind_some, replaceAt]
    by_cases hij : i = j
    · subst hij
      exact .inr ⟨ho, List.getElem?_set_self hlt⟩
    · exact .inl (List.getElem?_set_ne hij)

namespace Diagnostic

open Script

/-- One more function beside one of its name is one more overload of a method that is known. -/
theorem Stricter.of_insertion {s : Source} {index : SymbolIndex} {options : ResolveOptions} {i : Nat}
    {o : ScriptObject} {before after : List Function} {f : Function}
    (ho : index.objects[i]? = some o) (hfs : o.functions = before ++ after)
    (hf : ∃ g ∈ o.functions, g.name = f.name) :
    Stricter ⟨s, index, options⟩
      ⟨s, index.replaceAt i { o with functions := before ++ f :: after }, options⟩ := by
  refine .of_overloads fun object method => ?_
  rcases SymbolIndex.lookup_replaceAt ho { o with functions := before ++ f :: after } object with
    hsame | ⟨hold, hnew⟩
  · simp only [Task.overloads, hsame]
    exact ⟨id, List.Subset.refl _⟩
  · simp only [Task.overloads, hold, hnew, Option.map_some, Option.getD_some,
      ScriptObject.overloads, hfs]
    refine ⟨fun hsome => ?_, ?_⟩
    · -- A method that is only known by the new function has the name of an old one.
      obtain ⟨g, hg, hname⟩ := hf
      intro hnone
      rw [List.filter_eq_nil_iff] at hnone
      refine hsome (List.filter_eq_nil_iff.2 fun k hk => ?_)
      rcases List.mem_append.1 hk with hk | hk
      · exact hnone k (by simp [hk])
      · rcases List.mem_cons.1 hk with rfl | hk
        · exact hname ▸ hnone g (hfs ▸ hg)
        · exact hnone k (by simp [hk])
    · exact ((List.sublist_cons_self f after).append_left before).filter _ |>.subset

/-- **Loosening never adds a finding.** In every script that parses and with every index: a call that
is reported where arguments of type `unknown` fit everywhere is reported where they do not; and a
call that is reported after a function was put anywhere among those of an object, which had one of
that name already, was reported before. Both hold call by call and in order. -/
theorem looser_check_adds_no_range (text : String) (s : Source) (h : Source.parse? text = some s)
    (index : SymbolIndex) :
    (∃ loose strict, analyze? index { allowUnknown := true } text = some loose ∧
      analyze? index { allowUnknown := false } text = some strict ∧
      (loose.map (·.range)).Sublist (strict.map (·.range))) ∧
    ∀ (options : ResolveOptions) (i : Nat) (o : ScriptObject) (before after : List Function)
      (f : Function), index.objects[i]? = some o → o.functions = before ++ after →
      (∃ g ∈ o.functions, g.name = f.name) →
      ∃ loose strict,
        analyze? (index.replaceAt i { o with functions := before ++ f :: after }) options text =
          some loose ∧
        analyze? index options text = some strict ∧
        (loose.map (·.range)).Sublist (strict.map (·.range)) := by
  have analyzed (x : SymbolIndex) (options : ResolveOptions) :
      analyze? x options text = some (ofSource x options s) := by rw [analyze?, h]; rfl
  refine ⟨⟨_, _, analyzed _ _, analyzed _ _, ranges_ofSource_sublist (.of_options nofun)⟩, ?_⟩
  intro options i o before after f ho hfs hf
  exact ⟨_, _, analyzed _ _, analyzed _ _, ranges_ofSource_sublist (.of_insertion ho hfs hf)⟩

/-- A function of that name and those parameters, of which nothing else is known. -/
def plainFunction (name : String) (params : List Param) : Function :=
  { name, params, returns := .void, description := "", location := none }

/-- The same index with one more overload of `db.get`, which takes no argument and is put in front. -/
def furtherLookup : SymbolIndex :=
  numberLookup.replaceAt 0
    { name := "db"
      functions := [plainFunction "get" [],
        plainFunction "get" [⟨"id", .named "number", "", false⟩]] }

/-- Two calls that fit no overload, of which one fits the further one. -/
theorem furtherOverload_takes_call :
    ∃ s loose strict, Source.parse? "db.get(''); db.get()" = some s ∧
      analyze? furtherLookup {} "db.get(''); db.get()" = some loose ∧
      analyze? numberLookup {} "db.get(''); db.get()" = some strict ∧
      loose.map (·.range.startByte) = [0] ∧ strict.map (·.range.startByte) = [0, 12] ∧
      (loose.map (·.range)).Sublist (strict.map (·.range)) := by
  have hloose : (analyze? furtherLookup {} "db.get(''); db.get()").map
      (·.map (·.range.startByte)) = some [0] := by decide +kernel
  have hstrict : (analyze? numberLookup {} "db.get(''); db.get()").map
      (·.map (·.range.startByte)) = some [0, 12] := by decide +kernel
  obtain ⟨s, h⟩ : ∃ s, Source.parse? "db.get(''); db.get()" = some s :=
    Option.isSome_iff_exists.1 (by decide +kernel)
  obtain ⟨loose, strict, hl, hs, hsub⟩ :=
    (looser_check_adds_no_range _ s h numberLookup).2 {} 0 _ [] _ (plainFunction "get" []) rfl rfl
      ⟨_, List.mem_singleton_self _, rfl⟩
  have hl : analyze? furtherLookup {} "db.get(''); db.get()" = some loose := hl
  rw [hl] at hloose
  rw [hs] at hstrict
  exact ⟨s, loose, strict, h, hl, hs, Option.some.inj hloose, Option.some.inj hstrict, hsub⟩

end Diagnostic

end ScriptAtlas
