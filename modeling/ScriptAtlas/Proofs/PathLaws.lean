/-
How paths are put together and taken apart. A name joined to a path adds one
component, so a path that was built up from names starts with the components
of the path it was built on.
-/
import ScriptAtlas.Discovery
import ScriptAtlas.Proofs.SortedLists
import ScriptAtlas.Proofs.TextLaws

namespace ScriptAtlas

namespace Path

open Text

/-- The text can name a file: it is not empty, no dot and no two dots, and there is no slash in it. -/
def IsName (n : String) : Prop := n ≠ "" ∧ n ≠ "." ∧ n ≠ ".." ∧ '/' ∉ n.toList

instance (n : String) : Decidable (IsName n) := inferInstanceAs (Decidable (_ ∧ _))

/-- The components of the part of a path behind its start. -/
def bodyComponents (body : List Char) : List Component :=
  ((splitAtChar '/' body).filter (!isSilent ·)).map pieceComponent

/-- The components of a path that is given by its characters. -/
def charComponents (path : List Char) : List Component :=
  leadComponent (splitLead path).1 ++ bodyComponents (splitLead path).2

theorem components_eq (path : String) : components path = charComponents path.toList := rfl

theorem bodyComponents_append (a b : List Char) :
    bodyComponents (a ++ '/' :: b) = bodyComponents a ++ bodyComponents b := by
  simp only [bodyComponents, splitAtChar_append, List.filter_append, List.map_append]

theorem bodyComponents_nil : bodyComponents [] = [] := rfl

theorem IsName.not_isSilent {n : String} (h : IsName n) : isSilent n.toList = false := by
  have hne : n.toList ≠ ['.'] := fun he => h.2.1 (String.toList_inj.1 he)
  simp [isSilent, h.1, hne]

theorem IsName.not_up {n : String} (h : IsName n) : n.toList ≠ ['.', '.'] :=
  fun he => h.2.2.1 (String.toList_inj.1 he)

theorem IsName.not_mem {n : String} (h : IsName n) : '/' ∉ n.toList := h.2.2.2

/-- A piece between slashes that is not passed over and does not lead up is a name. -/
theorem isName_ofList {piece : List Char} (hslash : '/' ∉ piece) (hsilent : isSilent piece = false)
    (hup : piece ≠ ['.', '.']) : IsName (String.ofList piece) := by
  simp only [isSilent, Bool.or_eq_false_iff, List.isEmpty_eq_false_iff, beq_eq_false_iff_ne] at hsilent
  refine ⟨fun he => hsilent.1 ?_, fun he => hsilent.2 ?_, fun he => hup ?_, by simpa using hslash⟩ <;>
    simpa using congrArg String.toList he

theorem bodyComponents_name {n : String} (h : IsName n) : bodyComponents n.toList = [.name n] := by
  simp [bodyComponents, splitAtChar_of_not_mem h.not_mem, h.not_isSilent, pieceComponent, h.not_up]

theorem splitLead_other {s : List Char} (hroot : ∀ r, s ≠ '/' :: r) (hdot : s ≠ ['.'])
    (hdots : ∀ r, s ≠ '.' :: '/' :: r) : splitLead s = ([], s) := by
  unfold splitLead
  split
  · exact absurd rfl (hroot _)
  · exact absurd rfl hdot
  · exact absurd rfl (hdots _)
  · rfl

/-- The start of a path does not change when something is added behind it. -/
theorem splitLead_append {base : List Char} (h : base ≠ []) (rest : List Char) :
    splitLead (base ++ '/' :: rest) = ((splitLead base).1, (splitLead base).2 ++ '/' :: rest) := by
  by_cases hroot : ∃ r, base = '/' :: r
  · obtain ⟨r, rfl⟩ := hroot
    rfl
  by_cases hdot : base = ['.']
  · subst hdot
    rfl
  by_cases hdots : ∃ r, base = '.' :: '/' :: r
  · obtain ⟨r, rfl⟩ := hdots
    rfl
  obtain ⟨c, s, rfl⟩ := List.exists_cons_of_ne_nil h
  simp only [not_exists] at hroot hdots
  rw [splitLead_other hroot hdot hdots, splitLead_other]
  · intro r he
    exact hroot s (by rw [(List.cons.inj he).1])
  · simp
  · rintro r he
    cases s with
    | nil => exact hdot (by rw [(List.cons.inj he).1])
    | cons c' s =>
      obtain ⟨hc, he⟩ := List.cons.inj he
      exact hdots s (by rw [hc, (List.cons.inj he).1])

theorem charComponents_append {base : List Char} (h : base ≠ []) (rest : List Char) :
    charComponents (base ++ '/' :: rest) = charComponents base ++ bodyComponents rest := by
  simp only [charComponents, splitLead_append h, bodyComponents_append, List.append_assoc]

section

variable {n : String} (h : IsName n)

include h

theorem splitLead_name : splitLead n.toList = ([], n.toList) := by
  obtain ⟨-, hdot, -, hslash⟩ := h
  refine splitLead_other ?_ ?_ ?_
  · intro r he
    simp [he] at hslash
  · exact fun he => hdot (String.toList_inj.1 he)
  · intro r he
    simp [he] at hslash

theorem charComponents_name : charComponents n.toList = [.name n] := by
  simp only [charComponents, splitLead_name h, bodyComponents_name h]
  rfl

theorem not_isAbsolute_name : isAbsolute n = false := by
  obtain ⟨-, -, -, hslash⟩ := h
  cases hn : n.toList with
  | nil => simp [isAbsolute, hn]
  | cons c cs =>
    rw [hn, List.mem_cons, not_or] at hslash
    simp [isAbsolute, hn, Ne.symm hslash.1]

/-- A name stands behind the path that it is joined to, with a slash between them. -/
theorem toList_join {base : String} (hbase : base ≠ "") : (join base n).toList =
    if base.toList.getLast? = some '/' then base.toList ++ n.toList else base.toList ++ '/' :: n.toList := by
  simp only [join, not_isAbsolute_name h]
  by_cases hlast : base.toList.getLast? = some '/' <;> simp [hlast, hbase]

/-- **A name joined to a path** adds one component. -/
theorem components_join (base : String) : components (join base n) = components base ++ [.name n] := by
  by_cases hempty : base = ""
  · subst hempty
    have hnone : charComponents [] = [] := rfl
    simpa [join, not_isAbsolute_name h, components_eq, hnone] using charComponents_name h
  rw [components_eq, components_eq, toList_join h hempty]
  split
  · rename_i hlast
    -- the slash at the end of the base is the one that divides, or is the root
    obtain ⟨s, hs⟩ := List.getLast?_eq_some_iff.1 hlast
    rw [hs, List.append_assoc, List.singleton_append]
    by_cases hroot : s = []
    · subst hroot
      simp [charComponents, splitLead, bodyComponents_name h, bodyComponents_nil]
    · rw [charComponents_append hroot, charComponents_append hroot, bodyComponents_name h,
        bodyComponents_nil, List.append_nil]
  · rw [charComponents_append (by simpa using hempty), bodyComponents_name h]

theorem isAbsolute_join {base : String} (hbase : isAbsolute base = true) :
    isAbsolute (join base n) = true := by
  have hempty : base ≠ "" := by
    rintro rfl
    simp [isAbsolute] at hbase
  have hne : base.toList ≠ [] := by simpa using hempty
  obtain ⟨c, s, hs⟩ := List.exists_cons_of_ne_nil hne
  rw [isAbsolute, hs] at hbase
  rw [isAbsolute, toList_join h hempty, hs]
  split <;> simpa using hbase

end

theorem join_of_isAbsolute {base path : String} (h : isAbsolute path = true) : join base path = path := by
  simp [join, h]

theorem under?_eq_some_iff {base path : String} {below : List Component} :
    under? base path = some below ↔ components path = components base ++ below := by
  unfold under?
  by_cases h : components base <+: components path
  · obtain ⟨rest, hrest⟩ := h
    simp [← hrest]
  · have hne : components path ≠ components base ++ below := fun he => h ⟨below, he.symm⟩
    simp [h, hne]

theorem toList_of_isAbsolute {path : String} (h : isAbsolute path = true) :
    ∃ body, path.toList = '/' :: body := by
  have hhead : path.toList.head? = some '/' := by simpa [isAbsolute] using h
  exact List.head?_eq_some_iff.1 hhead

/-- An absolute path with a file name has a parent, which is absolute too. -/
theorem exists_parent? {path n : String} (habs : isAbsolute path = true) (hn : fileName? path = some n) :
    ∃ above, parent? path = some above ∧ isAbsolute above = true := by
  obtain ⟨body, hbody⟩ := toList_of_isAbsolute habs
  cases hp : (splitAtChar '/' body).reverse.dropWhile isSilent with
  | nil =>
    -- with silent pieces only, the root is the one component, and it is no name
    have hsilent : ∀ piece ∈ splitAtChar '/' body, isSilent piece = true := by
      simpa [List.dropWhile_eq_nil_iff] using hp
    have hnone : (splitAtChar '/' body).filter (!isSilent ·) = [] := by
      simpa [List.filter_eq_nil_iff] using hsilent
    simp [fileName?, components, hbody, splitLead, hnone, leadComponent] at hn
  | cons piece rest =>
    refine ⟨_, by simp only [parent?, hbody, splitLead, hp]; rfl, ?_⟩
    simp [isAbsolute]

end Path

/-- The names of the files and of the folders they are in are proper names. -/
def FileTree.Named (t : FileTree) : Prop := ∀ e ∈ t.files, ∀ n ∈ e.1, Path.IsName n

instance (t : FileTree) : Decidable t.Named := inferInstanceAs (Decidable (∀ e ∈ t.files, _))

namespace Discovery

open ScriptAtlas.Path

theorem components_pathBelow (start : String) {names : Route} (h : ∀ n ∈ names, IsName n) :
    components (pathBelow start names) = components start ++ names.map .name := by
  induction names generalizing start with
  | nil => simp [pathBelow]
  | cons n names ih =>
    have hn := ih (join start n) fun m hm => h m (by simp [hm])
    rw [components_join (h n (by simp))] at hn
    simpa [pathBelow] using hn

theorem isAbsolute_pathBelow {start : String} (hs : isAbsolute start = true) {names : Route}
    (h : ∀ n ∈ names, IsName n) : isAbsolute (pathBelow start names) = true := by
  induction names generalizing start with
  | nil => exact hs
  | cons n names ih =>
    exact ih (isAbsolute_join (h n (by simp)) hs) fun m hm => h m (by simp [hm])

@[simp] theorem mem_inOrder {r : Route} {routes : List Route} : r ∈ inOrder routes ↔ r ∈ routes :=
  Ordered.mem_sort

/-- What a walk finds is wanted and lies below where it starts. -/
theorem exists_names_of_mem_find {t : FileTree} (ht : t.Named) {c : Config} {start path : String}
    {keep : String → Bool} (h : path ∈ ((find t c start keep).toOption).getD []) :
    keep path = true ∧ ∃ names, (∀ n ∈ names, IsName n) ∧ path = pathBelow start names := by
  unfold find at h
  cases hr : t.resolve start with
  | error e => simp [hr, Except.toOption] at h
  | ok route =>
    rw [hr] at h
    by_cases hfolder : t.isFolder route = true
    · simp only [hfolder, if_true, Except.toOption, Option.getD_some, List.mem_map,
        mem_inOrder, List.mem_filter, Bool.and_eq_true] at h
      obtain ⟨names, ⟨hbelow, ⟨-, hkeep⟩, -⟩, rfl⟩ := h
      simp only [filesBelow, List.mem_filterMap, Option.ite_none_right_eq_some, Option.some.injEq] at hbelow
      obtain ⟨⟨r, f⟩, he, -, rfl⟩ := hbelow
      exact ⟨hkeep, _, fun n hn => ht _ he n (List.mem_of_mem_drop hn), rfl⟩
    · simp only [hfolder] at h
      have hself : keep start = true ∧ path = start := by
        cases hwanted : (fileName? start).any c.shouldInclude <;> cases hkeep : keep start <;>
          simp_all [Except.toOption]
      obtain ⟨hkeep, rfl⟩ := hself
      exact ⟨hkeep, [], by simp, rfl⟩

end Discovery

end ScriptAtlas
