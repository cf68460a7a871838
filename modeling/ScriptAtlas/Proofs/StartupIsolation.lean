/-
One broken script at the start of a workspace. A tree in which one file was
replaced has the same files and folders, so walks find the same paths, unless
the file holds ignore rules. If it is no settings file either, the units are
the same, and if it is no longer a script, all that is lost is what it
declared itself.
-/
import ScriptAtlas.Proofs.KeptTrees
import ScriptAtlas.Proofs.StartupOrder

namespace ScriptAtlas

open ScriptAtlas.Path

/-! ## A tree with one file replaced -/

namespace FileTree

/-- The tree with another file in the place of the one at the route. -/
def replace (t : FileTree) (r : Route) (f : File) : FileTree :=
  { t with files := t.files.map fun e => if e.1 = r then (r, f) else e }

section

variable (t : FileTree) (r : Route) (f : File)

theorem routes_replace : (t.replace r f).files.map (·.1) = t.files.map (·.1) := by
  rw [replace, List.map_map]
  apply List.map_congr_left
  intro e _
  by_cases he : e.1 = r <;> simp [he]

theorem isFolder_replace (q : Route) : (t.replace r f).isFolder q = t.isFolder q := rfl

theorem file?_replace_self : (t.replace r f).file? r = (t.file? r).map fun _ => f := by
  rw [file?, file?, replace]
  induction t.files with
  | nil => rfl
  | cons e files ih =>
    obtain ⟨q, g⟩ := e
    rw [List.map_cons, List.lookup_cons]
    by_cases hq : q = r
    · subst hq
      simp
    · have hne : (r == q) = false := beq_eq_false_iff_ne.2 (Ne.symm hq)
      simp only [hq, if_false, List.lookup_cons, hne]
      exact ih

theorem file?_replace_other {q : Route} (h : q ≠ r) : (t.replace r f).file? q = t.file? q := by
  rw [file?, file?, replace]
  induction t.files with
  | nil => rfl
  | cons e files ih =>
    obtain ⟨p, g⟩ := e
    rw [List.map_cons, List.lookup_cons]
    by_cases hp : p = r
    · subst hp
      simp only [if_true, List.lookup_cons, beq_eq_false_iff_ne.2 h]
      exact ih
    · simp only [hp, if_false, List.lookup_cons]
      split
      · rfl
      · exact ih

theorem follow_replace : (t.replace r f).follow = t.follow := by
  have hsome : ∀ q, ((t.replace r f).file? q).isSome = (t.file? q).isSome := by
    intro q
    by_cases hq : q = r
    · subst hq
      simp [file?_replace_self]
    · rw [file?_replace_other t r f hq]
  funext q piece
  simp only [follow, isFolder_replace, hsome]

/-- Paths lead to where they led before. -/
theorem resolve_replace (path : String) : (t.replace r f).resolve path = t.resolve path := by
  rw [resolve, resolve, follow_replace]

variable {t r f}

theorem WellFormed.replace (h : t.WellFormed) : (t.replace r f).WellFormed := by
  refine ⟨fun e he => ?_, ?_⟩
  · have hroute : e.1 ∈ t.files.map (·.1) := routes_replace t r f ▸ List.mem_map_of_mem he
    obtain ⟨e', he', heq⟩ := List.mem_map.1 hroute
    rw [← heq]
    exact h.named e' he'
  · have hroutes : (t.files.map (·.1)).Pairwise (· < ·) := List.pairwise_map.2 h.inOrder
    rw [← routes_replace t r f] at hroutes
    exact List.pairwise_map.1 hroutes

/-- Other files can be read as before. -/
theorem readText_replace {path : String} (h : t.resolve path ≠ .ok r) :
    (t.replace r f).readText path = t.readText path := by
  have hfile : (t.replace r f).fileAt path = t.fileAt path := by
    rw [fileAt, fileAt, resolve_replace]
    cases hq : t.resolve path with
    | error e => rfl
    | ok q =>
      have hne : q ≠ r := fun he => h (he ▸ hq)
      simp only [bind, Except.bind, file?_replace_other t r f hne]
  rw [readText, readText, hfile]

theorem declared?_replace {q : Route} (hq : q.Proper) (hne : q ≠ r) :
    (t.replace r f).declared? q.text = t.declared? q.text := by
  have hres : t.resolve q.text ≠ .ok r := fun he => hne (resolve_text hq he).symm
  rw [declared?, declared?, readText_replace hres]

end

end FileTree

/-! ## What walks find in it -/

variable {t : FileTree} {r : Route} {f : File}

/-- The route is that of a file with ignore rules. -/
def IgnoreRule.IsRuleFile (r : Route) : Prop := ∃ name ∈ ruleFiles, name <:+ r

instance (r : Route) : Decidable (IgnoreRule.IsRuleFile r) :=
  inferInstanceAs (Decidable (∃ name ∈ IgnoreRule.ruleFiles, name <:+ r))

theorem allRules_replace (h : ¬ IgnoreRule.IsRuleFile r) :
    IgnoreRule.allRules (t.replace r f) = IgnoreRule.allRules t := by
  refine List.map_congr_left fun name hname => ?_
  have hsuffix : name.isSuffixOf r = false := by
    by_contra hne
    exact h ⟨name, hname, List.isSuffixOf_iff_suffix.1 (by simpa using hne)⟩
  rw [IgnoreRule.rulesOf, IgnoreRule.rulesOf, FileTree.replace, List.filterMap_map]
  refine List.filterMap_congr fun e _ => ?_
  by_cases he : e.1 = r
  · obtain ⟨q, g⟩ := e
    obtain rfl : q = r := he
    simp only [Function.comp_apply, if_true, hsuffix, Bool.false_eq_true, if_false]
    split <;> split <;> rfl
  · simp only [Function.comp_apply, he, if_false]

theorem filesBelow_replace (start : Route) :
    Discovery.filesBelow (t.replace r f) start = Discovery.filesBelow t start := by
  have hfiles (t : FileTree) : Discovery.filesBelow t start = (t.files.map (·.1)).filterMap fun q =>
      if start.isPrefixOf q then some (q.drop start.length) else none := by
    rw [Discovery.filesBelow, List.filterMap_map]
    rfl
  rw [hfiles, hfiles, FileTree.routes_replace]

/-- **Walks find the same files** after one that holds no ignore rules was replaced. -/
theorem find_replace (h : ¬ IgnoreRule.IsRuleFile r) (c : Config) (start : String) (keep : String → Bool) :
    Discovery.find (t.replace r f) c start keep = Discovery.find t c start keep := by
  simp only [Discovery.find, FileTree.resolve_replace, FileTree.isFolder_replace, filesBelow_replace,
    allRules_replace h]

namespace Startup

section

variable {c : Config} {root : Route}

theorem globalsFiles_replace (h : ¬ IgnoreRule.IsRuleFile r) :
    globalsFiles (t.replace r f) c root.text = globalsFiles t c root.text := by
  rw [globalsFiles, globalsFiles, find_replace h]

theorem scriptsOf_replace (h : ¬ IgnoreRule.IsRuleFile r) :
    Units.scriptsOf (t.replace r f) c = Units.scriptsOf t c := by
  funext u
  rw [Units.scriptsOf, Units.scriptsOf, find_replace h]

/-- **Units are the same** after a file that is no settings file was replaced. -/
theorem units_replace (ht : t.Named) (hroot : root.Proper) (h : ¬ IgnoreRule.IsRuleFile r)
    (hsettings : r.getLast? ≠ some c.settingsFile) :
    Units.find (t.replace r f) c root.text = Units.find t c root.text := by
  rw [Units.find, Units.find, find_replace h]
  refine congrArg Units.distinct (List.filterMap_congr fun path hpath => ?_)
  obtain ⟨hkeep, q, hq, rfl⟩ := Discovery.exists_route_of_mem_find ht hroot hpath
  have hlast : q.getLast? = some c.settingsFile := by
    simpa [Config.isSettingsFile, Route.fileName?_text hq] using hkeep
  have hne : t.resolve q.text ≠ .ok r := fun he => hsettings (FileTree.resolve_text hq he ▸ hlast)
  rw [Units.unitAt?, Units.unitAt?, FileTree.readText_replace hne]

theorem unitFiles_replace (ht : t.Named) (hroot : root.Proper) (h : ¬ IgnoreRule.IsRuleFile r)
    (hsettings : r.getLast? ≠ some c.settingsFile) :
    unitFiles (t.replace r f) c root.text = unitFiles t c root.text := by
  rw [unitFiles, unitFiles, units_replace ht hroot h hsettings, scriptsOf_replace h]

end

/-! ## What a workspace declares -/

theorem eq_of_components_eq {p q : String} (hp : IsText p) (hq : IsText q)
    (h : components p = components q) : p = q := by
  rw [← hp.2, ← hq.2, Route.components_text hp.1, Route.components_text hq.1] at h
  rw [← hp.2, ← hq.2, (List.map_inj_right fun _ _ he => Component.name.inj he).1 (List.cons.inj h).2]

/-- Declarations that are listed by path are found under the path, however it is spelled. -/
theorem find?_declared {paths : List String} (hpaths : ∀ p ∈ paths, IsText p) {path other : String}
    (htext : IsText path) (hother : components other = components path)
    (declared? : String → Option Declarations) :
    ((paths.filterMap fun p => (declared? p).map (p, ·)).find? fun e =>
        components e.1 == components other).map (·.2) = if path ∈ paths then declared? path else none := by
  induction paths with
  | nil => rfl
  | cons p paths ih =>
    have hrest := ih fun q hq => hpaths q (by simp [hq])
    have hsame : components p = components other ↔ p = path := by
      rw [hother]
      exact ⟨eq_of_components_eq (hpaths p (by simp)) htext, fun he => he ▸ rfl⟩
    rw [List.filterMap_cons]
    by_cases hp : p = path
    · subst hp
      cases hd : declared? p with
      | none => simpa [hd] using hrest
      | some d => simp [hsame.2 rfl]
    · have hne : (components p == components other) = false :=
        beq_eq_false_iff_ne.2 fun he => hp (hsame.1 he)
      have hmem : path ∈ p :: paths ↔ path ∈ paths := by simp [Ne.symm hp]
      cases hd : declared? p with
      | none => simpa [hmem] using hrest
      | some d => simpa [hmem, hne] using hrest

section

variable {c : Config} {root : Route} (ht : t.Named) (hroot : root.Proper)
  (declared? : String → Option Declarations)

theorem declarations_unitsWith : (unitsWith t c root.text declared?).declarations =
    (unitFiles t c root.text).filterMap fun path => (declared? path).map (path, ·) := rfl

theorem mem_unitFiles {path : String} : path ∈ unitFiles t c root.text ↔
    ∃ name, path ∈ (unitsWith t c root.text declared?).filesOf name := by
  have hfiles : (unitsWith t c root.text declared?).files =
      (Units.find t c root.text).map fun u => (u.name, Units.scriptsOf t c u) := rfl
  simp only [unitFiles, List.mem_eraseDups, List.mem_flatMap]
  constructor
  · rintro ⟨u, hu, hpath⟩
    exact ⟨u.name, by rwa [Units.filesOf_name hfiles hu]⟩
  · rintro ⟨name, hpath⟩
    obtain ⟨u, hu, hscript⟩ := Units.exists_unit_of_mem_filesOf hfiles hpath
    exact ⟨u, List.mem_of_find?_eq_some hu, hscript⟩

theorem declarations?_unitsWith_none {other : String}
    (h : ∀ path ∈ unitFiles t c root.text, components path ≠ components other) :
    (unitsWith t c root.text declared?).declarations? other = none := by
  rw [Units.declarations?, declarations_unitsWith, Option.map_eq_none_iff, List.find?_eq_none]
  intro e he
  obtain ⟨path, hpath, hdeclared⟩ := List.mem_filterMap.1 he
  obtain ⟨d, -, rfl⟩ := Option.map_eq_some_iff.1 hdeclared
  simpa using h path hpath

include ht hroot

theorem declarations?_unitsWith {path other : String} (h : IsText path)
    (hother : components other = components path) :
    (unitsWith t c root.text declared?).declarations? other =
      if path ∈ unitFiles t c root.text then declared? path else none := by
  rw [Units.declarations?, declarations_unitsWith]
  exact find?_declared (fun _ hp => (of_mem_unitFiles ht hroot hp).2) h hother declared?

end

/-- A workspace has what the files of a tree declare: under the path of a script of a unit what the
script declares, under other paths nothing, and the merged globals of the files with globals, which
come in the order of their routes. -/
structure Declares (t : FileTree) (w : Workspace) : Prop where
  script : ∀ unit, ∀ path ∈ w.units.filesOf unit, w.units.declarations? path = t.declared? path
  other : ∀ path, (∀ unit, ∀ p ∈ w.units.filesOf unit, components p ≠ components path) →
    w.units.declarations? path = none
  globals : ∃ routes : List Route, routes.Pairwise (· < ·) ∧
    globalsFiles t w.config w.root = routes.map Route.text ∧
    w.index = (SymbolIndex.ofCatalog (SymbolIndex.catalogOf t w.config)).installGlobals
      (Globals.merge (routes.filterMap fun q => t.declared? q.text))

/-- The second workspace has the units, references and scripts of the first and declares the same,
but has nothing for the file at the route. -/
structure LacksOnly (r : Route) (w w' : Workspace) : Prop where
  units : w'.units.units = w.units.units
  graph : w'.units.graph = w.units.graph
  files : w'.units.files = w.units.files
  others : ∀ path, components path ≠ components r.text →
    w'.units.declarations? path = w.units.declarations? path
  lost : w'.units.declarations? r.text = none

section

variable {c : Config} {root : Route} {s s' : Store} (ht : t.WellFormed) (hroot : root.Proper)

include ht hroot

theorem declares_build (hs : Correct t c root.text s) (database : Option Route) :
    Declares t (Workspace.build t c root.text database s) := by
  rw [build_eq ht.named ht.inOrder hroot hs]
  refine ⟨fun unit path hpath => ?_, fun path hother => ?_, ?_⟩
  · have hmem : path ∈ unitFiles t c root.text := (mem_unitFiles t.declared?).2 ⟨unit, hpath⟩
    have htext := (of_mem_unitFiles ht.named hroot hmem).2
    exact (declarations?_unitsWith ht.named hroot _ htext rfl).trans (if_pos hmem)
  · refine declarations?_unitsWith_none _ fun p hp => ?_
    obtain ⟨unit, hlisted⟩ := (mem_unitFiles t.declared?).1 hp
    exact hother unit p hlisted
  · obtain ⟨routes, hroutes, hsorted, -⟩ := exists_routes_globalsFiles (c := c) ht.named hroot ht.inOrder
    refine ⟨routes, hsorted, hroutes, ?_⟩
    show indexWith t c root.text t.declared? = _
    rw [indexWith, hroutes, List.filterMap_map]
    rfl

theorem lacksOnly_build (hs : Correct t c root.text s) (hs' : Correct (t.replace r f) c root.text s')
    (hr : r.Proper) (hrules : ¬ IgnoreRule.IsRuleFile r) (hsettings : r.getLast? ≠ some c.settingsFile)
    (hbroken : (t.replace r f).declared? r.text = none) (database : Option Route) :
    LacksOnly r (Workspace.build t c root.text database s)
      (Workspace.build (t.replace r f) c root.text database s') := by
  have hunits := units_replace (f := f) ht.named hroot hrules hsettings
  have hscripts := scriptsOf_replace (t := t) (f := f) (c := c) hrules
  have hfiles := unitFiles_replace (f := f) ht.named hroot hrules hsettings
  rw [build_eq ht.named ht.inOrder hroot hs, build_eq ht.replace.named ht.replace.inOrder hroot hs']
  refine ⟨hunits, ?_, ?_, fun path hpath => ?_, ?_⟩
  · simp only [unitsWith, hunits]
  · simp only [unitsWith, hunits, hscripts]
  · by_cases hlisted : ∃ p ∈ unitFiles t c root.text, components p = components path
    · obtain ⟨p, hp, hsame⟩ := hlisted
      have htext := (of_mem_unitFiles ht.named hroot hp).2
      have hne : Route.ofPath p ≠ r := fun he => hpath (by rw [← hsame, ← htext.2, he])
      have hdeclared := FileTree.declared?_replace (t := t) (f := f) htext.1 hne
      rw [htext.2] at hdeclared
      show (unitsWith _ _ _ _).declarations? path = (unitsWith _ _ _ _).declarations? path
      rw [declarations?_unitsWith ht.named hroot _ htext hsame.symm,
        declarations?_unitsWith ht.replace.named hroot _ htext hsame.symm, hfiles, hdeclared]
    · have hnone : ∀ p ∈ unitFiles t c root.text, components p ≠ components path :=
        fun p hp he => hlisted ⟨p, hp, he⟩
      show (unitsWith _ _ _ _).declarations? path = (unitsWith _ _ _ _).declarations? path
      rw [declarations?_unitsWith_none _ hnone,
        declarations?_unitsWith_none _ (hfiles ▸ hnone)]
  · refine (declarations?_unitsWith ht.replace.named hroot _ (isText_text hr) rfl).trans ?_
    rw [hbroken, ite_self]

end

/-- **The start of a workspace, in any order and with a broken script.** Calls that get to take four
steps each come to their end, and whatever the order of the steps, the answers and the store they
leave make the workspace that is built one file after another. It has what the files declare. If a file
that holds neither settings nor ignore rules is replaced by one that is no script, the workspace built
then lacks what that file declared and nothing else. -/
theorem start_in_any_order (ht : t.WellFormed) (c : Config) {root : Route} (hroot : root.Proper)
    {s : Store} (hsorted : s.InOrder) (hs : Correct t c root.text s) (database : Option Route) :
    let w := Workspace.build t c root.text database s
    (∀ es : List Cache.Event, (∀ i < (asked t c root.text).length, 4 ≤ es.count (.act i)) →
      Finished t c root.text (after t c root.text s es)) ∧
    (∀ es, Finished t c root.text (after t c root.text s es) →
      assemble t c root.text database (after t c root.text s es) = w) ∧
    Declares t w ∧
    ∀ (r : Route) (f : File) (s' : Store), r ∈ t.files.map (·.1) → r.getLast? ≠ some c.settingsFile →
      ¬ IgnoreRule.IsRuleFile r → (t.replace r f).declared? r.text = none →
      Correct (t.replace r f) c root.text s' →
      let w' := Workspace.build (t.replace r f) c root.text database s'
      Declares (t.replace r f) w' ∧ LacksOnly r w w' ∧
        globalsFiles (t.replace r f) c root.text = globalsFiles t c root.text ∧
        ∀ q : Route, q.Proper → q ≠ r → (t.replace r f).declared? q.text = t.declared? q.text := by
  refine ⟨fun es => finished_of_count, fun es hdone => ?_, declares_build ht hroot hs database, ?_⟩
  · exact assemble_eq ht.named ht.inOrder hroot hs hsorted hdone database
  intro r f s' hr hsettings hrules hbroken hs'
  have hproper : r.Proper := by
    obtain ⟨e, he, rfl⟩ := List.mem_map.1 hr
    exact ht.named e he
  exact ⟨declares_build ht.replace hroot hs' database,
    lacksOnly_build ht hroot hs hs' hproper hrules hsettings hbroken database,
    globalsFiles_replace hrules, fun q hq hne => FileTree.declared?_replace hq hne⟩

/-- An empty store is correct for every workspace. -/
theorem correct_empty (t : FileTree) (c : Config) (root : String) : Correct t c root {} := by
  have hnone (key : String) (stamp : Option FileStamp) : ({} : Store).stored? key stamp = none := by
    cases stamp <;> rfl
  exact ⟨fun _ _ _ h => by simp [hnone] at h, fun _ _ _ h => by simp [hnone] at h⟩

/-- A file that is no script. -/
def broken : File := ⟨.plain "function (".toUTF8.toList, 1⟩

/-- A file with globals, and a unit with a script. -/
def twoScripts : FileTree where
  folders := [["ws"], ["ws", "crm"]]
  files := [
    (["ws", "crm", "edit.js"], ⟨.plain "function edit() \x7b\x7d".toUTF8.toList, 0⟩),
    (["ws", "crm", "unit.obj"], ⟨.plain "uuid: \x221\x22".toUTF8.toList, 0⟩),
    (["ws", "globals.js"], ⟨.plain "var limit = 1".toUTF8.toList, 0⟩)]

/-- The configuration of that workspace. -/
def twoScriptsConfig : Config := { settingsFile := "unit.obj", excluded := ["dist/**"] }

/-- The steps of two calls, one ahead of the other at first and behind it in the end. -/
def interleaved : List Cache.Event :=
  [.act 0, .act 1, .act 1, .act 1, .act 0, .act 0, .act 0, .act 1]

theorem asked_twoScripts :
    asked twoScripts twoScriptsConfig "/ws" = ["/ws/globals.js", "/ws/crm/edit.js"] := by
  decide +kernel

/-- A start with its two calls interleaved, and a start with the script of the unit broken. -/
theorem twoScripts_start_in_any_order :
    let w := Workspace.build twoScripts twoScriptsConfig "/ws" none {}
    let edit : Route := ["ws", "crm", "edit.js"]
    (twoScripts.WellFormed ∧ Route.Proper ["ws"] ∧ Store.InOrder {} ∧
      Correct twoScripts twoScriptsConfig "/ws" {}) ∧
    assemble twoScripts twoScriptsConfig "/ws" none
      (after twoScripts twoScriptsConfig "/ws" {} interleaved) = w ∧
    (edit ∈ twoScripts.files.map (·.1) ∧ edit.getLast? ≠ some twoScriptsConfig.settingsFile ∧
      ¬ IgnoreRule.IsRuleFile edit ∧ (twoScripts.replace edit broken).declared? edit.text = none) ∧
    LacksOnly edit w (Workspace.build (twoScripts.replace edit broken) twoScriptsConfig "/ws" none {}) := by
  intro w edit
  have htree : twoScripts.WellFormed := ⟨by decide +kernel, by decide +kernel⟩
  have hproper : Route.Proper ["ws"] := by decide
  have hstore : Store.InOrder {} := .nil
  have hroot : Route.text ["ws"] = "/ws" := by decide +kernel
  have hfile : edit ∈ twoScripts.files.map (·.1) ∧ edit.getLast? ≠ some twoScriptsConfig.settingsFile ∧
      ¬ IgnoreRule.IsRuleFile edit := by decide +kernel
  have hbroken : (twoScripts.replace edit broken).declared? edit.text = none := by decide +kernel
  have hcount : ∀ i < (asked twoScripts twoScriptsConfig "/ws").length, 4 ≤ interleaved.count (.act i) := by
    rw [asked_twoScripts]
    decide
  have hstart := start_in_any_order htree twoScriptsConfig hproper hstore (correct_empty _ _ _) none
  rw [hroot] at hstart
  obtain ⟨hends, hany, -, hlost⟩ := hstart
  refine ⟨⟨htree, hproper, hstore, correct_empty _ _ _⟩, hany _ (hends _ hcount),
    ⟨hfile.1, hfile.2.1, hfile.2.2, hbroken⟩, ?_⟩
  exact (hlost edit broken {} hfile.1 hfile.2.1 hfile.2.2 hbroken (correct_empty _ _ _)).2.1

/-- A unit whose settings file is a script too. -/
def settingsScript : FileTree where
  folders := [["ws"], ["ws", "crm"]]
  files := [(["ws", "crm", "unit.js"], ⟨.plain "uuid: \x221\x22".toUTF8.toList, 0⟩)]

/-- When the script with the settings is broken, the unit is lost. -/
theorem settingsScript_broken_loses_unit :
    let c : Config := { settingsFile := "unit.js", excluded := ["dist/**"] }
    let t := settingsScript.replace ["ws", "crm", "unit.js"] broken
    (c.isScript "/ws/crm/unit.js" = true ∧ t.declared? "/ws/crm/unit.js" = none) ∧
      (Workspace.build settingsScript c "/ws" none {}).units.units.map (·.name) = ["crm"] ∧
      (Workspace.build t c "/ws" none {}).units.units = [] := by
  decide +kernel

end Startup

end ScriptAtlas
