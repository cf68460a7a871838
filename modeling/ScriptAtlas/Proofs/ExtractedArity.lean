/-
How many arguments fit a function that a script declares. A call whose arguments
are not analysed fits as long as it gives neither too few nor too many of them
(`mismatches_any_iff`). One argument for each parameter in the list is right
exactly when every parameter is named (`any_per_parameter_fits_iff`): those that
are patterns are not extracted.
-/
import Mathlib.Data.List.Basic
import ScriptAtlas.Extraction
import ScriptAtlas.Overload
import ScriptAtlas.Proofs.GrammarLaws

namespace ScriptAtlas

/-! ## Arguments that are not analysed -/

namespace Overload

variable {options : ResolveOptions} {p : Param} {ps : List Param} {f : Function} {i k : Nat}

theorem accepts_any : accepts options p .any = true := rfl

/-- Arguments that are not analysed are bad only where there is no parameter for them. -/
theorem badArguments_any_iff :
    badArguments options i ps (List.replicate k .any) = [] ↔ k ≤ ps.length := by
  induction k generalizing i ps with
  | zero => simp [badArguments]
  | succ k ih =>
    cases ps with
    | nil => simp [List.replicate_succ, badArguments]
    | cons p ps => simp [List.replicate_succ, badArguments, accepts_any, ih]

theorem badCount_eq_nil_iff : badCount f k = [] ↔ f.requiredCount ≤ k ∧ k ≤ f.params.length := by
  simp [badCount]

theorem mismatches_any_iff : mismatches options (List.replicate k .any) f = [] ↔
    f.requiredCount ≤ k ∧ k ≤ f.params.length := by
  rw [mismatches, List.append_eq_nil_iff, badArguments_any_iff, List.length_replicate,
    badCount_eq_nil_iff]
  exact ⟨fun h => h.2, fun h => ⟨h.2, h⟩⟩

theorem requiredCount_le_length (f : Function) : f.requiredCount ≤ f.params.length := by
  have h := (List.dropWhile_sublist (l := f.params.reverse) (p := Param.optional)).length_le
  rwa [List.length_reverse] at h

end Overload

namespace Extraction

open Script

/-! ## Parameters that are extracted -/

/-- The parameters in a list of them, without the comments between them. -/
def formals (list : Node) : List Node := list.parts.filter (!·.kind.isGap)

theorem codeParam?_of_isGap {n : Node} (h : n.kind.isGap = true) : codeParam? n = none := by
  obtain ⟨kind, role, start, stop, text, parts⟩ := n
  cases kind <;> first | rfl | cases h

theorem named_filterMap_codeParam? (list : Node) :
    list.named.filterMap codeParam? = (formals list).filterMap codeParam? := by
  simp only [Node.named, formals, List.filterMap_filter]
  refine List.filterMap_congr fun p _ => ?_
  cases hg : p.kind.isGap with
  | true => simp [codeParam?_of_isGap hg]
  | false =>
    have hk : p.kind ≠ .comment := fun hk => by simp [hk, Kind.isGap] at hg
    simp [hk]

theorem child?_isSome_iff {n : Node} {r : Role} :
    (n.child? r).isSome = true ↔ r ∈ n.parts.filterMap (·.role) := by
  simp [Node.child?, List.find?_isSome, List.mem_filterMap]

theorem mem_of_child? {n m : Node} {r : Role} (h : n.child? r = some m) : m ∈ n.parts ∧ m.role = some r := by
  refine ⟨List.mem_of_find?_eq_some h, ?_⟩
  have hrole := List.find?_some h
  exact beq_iff_eq.1 hrole

/-- The roles of the parts of a function that is declared. -/
theorem roles_of_declaration {n : Node} (hl : n.Lawful)
    (hk : n.kind = .functionDeclaration ∨ n.kind = .generatorDeclaration) :
    n.parts.filterMap (·.role) = [.name, .parameters, .body] := by
  obtain ⟨kind, role, start, stop, text, parts⟩ := n
  have hfields := hl.2.1
  rcases hk with rfl | rfl <;> simpa [Kind.isWord, Kind.fields, Kind.lead?] using hfields

/-- The declaration of a function has a list of parameters. -/
theorem parameters_of_declaration {n : Node} (hl : n.Lawful)
    (hk : n.kind = .functionDeclaration ∨ n.kind = .generatorDeclaration) :
    n.child? .parameter = none ∧ ∃ list, n.child? .parameters = some list := by
  have hroles := roles_of_declaration hl hk
  constructor
  · rw [← Option.not_isSome_iff_eq_none, child?_isSome_iff, hroles]
    decide
  · rw [← Option.isSome_iff_exists, child?_isSome_iff, hroles]
    decide

/-- Without a doc comment the parameters are those of the code. -/
theorem length_mergeParams_nil (code : List CodeParam) :
    (mergeParams [] code).length = code.length := by
  simp [mergeParams, appendMissing]

/-- The function that a declaration without a doc comment is extracted as. -/
theorem length_params_of_declaration {s : Source} {file : String} {n : Node} {f : Function}
    (hk : n.kind = .functionDeclaration ∨ n.kind = .generatorDeclaration)
    (hdoc : docFor s n = none) (hf : f ∈ (ofStatement s file n).functions) :
    f.params.length = (codeParams n).length := by
  have hf : f ∈ (ofFunction s file n).functions := by
    rcases hk with hk | hk <;> simpa [ofStatement, hk] using hf
  unfold ofFunction at hf
  split at hf
  · simp at hf
  · split at hf
    · obtain rfl := List.mem_singleton.1 hf
      simp only [functionOf, hdoc]
      exact length_mergeParams_nil _
    · simp at hf

/-- What fits a function that is extracted from any lawful declaration. -/
theorem mismatches_per_parameter_iff {s : Source} {file : String} {options : ResolveOptions} {n : Node}
    {f : Function} (hl : n.Lawful)
    (hk : n.kind = .functionDeclaration ∨ n.kind = .generatorDeclaration)
    (hdoc : docFor s n = none) (hf : f ∈ (ofStatement s file n).functions) :
    ∃ list, n.child? .parameters = some list ∧
      (Overload.mismatches options (List.replicate (formals list).length .any) f = [] ↔
        ∀ p ∈ formals list, (codeParam? p).isSome = true) := by
  obtain ⟨hsingle, list, hlist⟩ := parameters_of_declaration hl hk
  have hlength : f.params.length = ((formals list).filterMap codeParam?).length := by
    rw [length_params_of_declaration hk hdoc hf, codeParams, hsingle, hlist]
    exact congrArg List.length (named_filterMap_codeParam? list)
  have hle : f.params.length ≤ (formals list).length := hlength ▸ List.length_filterMap_le _ _
  refine ⟨list, hlist, ?_⟩
  calc Overload.mismatches options (List.replicate (formals list).length .any) f = []
      ↔ (formals list).length ≤ f.params.length := by
        rw [Overload.mismatches_any_iff]
        exact and_iff_right ((Overload.requiredCount_le_length f).trans hle)
    _ ↔ ((formals list).filterMap codeParam?).length = (formals list).length := by omega
    _ ↔ ∀ p ∈ formals list, (codeParam? p).isSome = true := List.filterMap_length_eq_length

/-- **One argument for each parameter** fits a function without a doc comment exactly when every
parameter of the declaration is named, alone, with a default value or for the rest. -/
theorem any_per_parameter_fits_iff (text : String) (s : Source) (h : Source.parse? text = some s)
    (file : String) (options : ResolveOptions) (n : Node) (hn : n ∈ s.root.parts)
    (hk : n.kind = .functionDeclaration ∨ n.kind = .generatorDeclaration)
    (hdoc : docFor s n = none) (f : Function) (hf : f ∈ (ofStatement s file n).functions) :
    ∃ list, n.child? .parameters = some list ∧
      (Overload.mismatches options (List.replicate (formals list).length .any) f = [] ↔
        ∀ p ∈ formals list, (codeParam? p).isSome = true) := by
  obtain ⟨i, hi⟩ := List.mem_iff_getElem?.1 hn
  exact mismatches_per_parameter_iff (Node.lawful_part (wellFormed_of_parse? h).lawful hi) hk hdoc hf

/-- A parameter that is a pattern is not extracted, so a call that gives it an argument gives too
many. -/
theorem pattern_parameter_misfits :
    (Source.parse? "function f(\x7ba\x7d, b) \x7b\x7d").map (fun s => s.root.parts.map fun n =>
      ((n.child? .parameters).map fun list => (formals list).length,
        (ofStatement s "" n).functions.map (Overload.mismatches {} [.any, .any]))) =
      some [(some 2, [[.unexpected 1, .wrongCount 1 1 2]])] := by
  decide +kernel

theorem named_parameters_fit :
    ∃ s n f, Source.parse? "function f(a, b = 1, ...c) \x7b\x7d" = some s ∧ n ∈ s.root.parts ∧
      n.kind = .functionDeclaration ∧ docFor s n = none ∧ f ∈ (ofStatement s "" n).functions ∧
      Overload.mismatches {} [.any, .any, .any] f = [] := by
  have hfacts : (Source.parse? "function f(a, b = 1, ...c) \x7b\x7d").bind (fun s =>
      s.root.parts.head?.map fun n => (n.kind, (docFor s n).isNone,
        (ofStatement s "" n).functions.length, (n.child? .parameters).map fun list =>
          ((formals list).length, (formals list).all fun p => (codeParam? p).isSome))) =
      some (.functionDeclaration, true, 1, some (3, true)) := by decide +kernel
  obtain ⟨s, h, hfacts⟩ := Option.bind_eq_some_iff.1 hfacts
  obtain ⟨n, hn, hfacts⟩ := Option.map_eq_some_iff.1 hfacts
  simp only [Prod.mk.injEq, Option.isNone_iff_eq_none] at hfacts
  obtain ⟨hk, hdoc, hone, hlist⟩ := hfacts
  obtain ⟨f, hf⟩ := List.length_eq_one_iff.1 hone
  obtain ⟨list, hlist, hformals⟩ := Option.map_eq_some_iff.1 hlist
  obtain ⟨hthree, hnamed⟩ := Prod.mk.inj hformals
  have hn := List.mem_of_head? hn
  have hf : f ∈ (ofStatement s "" n).functions := by simp [hf]
  refine ⟨s, n, f, h, hn, hk, hdoc, hf, ?_⟩
  obtain ⟨list', hlist', hfits⟩ :=
    any_per_parameter_fits_iff _ s h "" {} n hn (.inl hk) hdoc f hf
  obtain rfl : list = list' := Option.some.inj (hlist.symm.trans hlist')
  rw [hthree] at hfits
  exact hfits.2 (List.all_eq_true.1 hnamed)

end Extraction

end ScriptAtlas
