/-
Trees of files stay well formed. The files of a tree have proper names and stand
in the order of their routes, whatever is written and removed, and opening and
closing workspaces keeps it so: a path only ever leads to a proper route, and a
database is written where one was made or found.
-/
import ScriptAtlas.Proofs.RouteLaws
import ScriptAtlas.Workspace

namespace ScriptAtlas

open Path Text

/-- What one step keeps, a run that comes to its end keeps. -/
theorem foldlM_keeps {α β ε : Type} {P : β → Prop} {f : β → α → Except ε β} {as : List α}
    (hstep : ∀ a ∈ as, ∀ b b', P b → f b a = .ok b' → P b') {b b' : β} (hb : P b)
    (h : as.foldlM f b = .ok b') : P b' := by
  induction as generalizing b with
  | nil => exact Except.ok.inj h ▸ hb
  | cons a as ih =>
    rw [List.foldlM_cons] at h
    cases hnext : f b a with
    | error e =>
      rw [hnext] at h
      cases h
    | ok next =>
      rw [hnext] at h
      refine ih (fun a ha => hstep a (List.mem_cons_of_mem _ ha)) ?_ h
      exact hstep a List.mem_cons_self b next hb hnext

namespace FileTree

/-- The files of the tree have proper names and stand in the order of their routes. -/
structure WellFormed (t : FileTree) : Prop where
  named : t.Named
  inOrder : t.InOrder

/-! ## Changes of a tree -/

/-- What can be done to a tree. -/
inductive Change where
  | write (r : Route) (f : File)
  | addFolder (r : Route)
  | remove (r : Route)

/-- The tree after the change. -/
def Change.apply (t : FileTree) : Change → FileTree
  | write r f => t.write r f
  | addFolder r => t.addFolder r
  | remove r => t.remove r

/-- A file is written under proper names only. -/
def Change.Proper : Change → Prop
  | write r _ => r.Proper
  | addFolder _ => True
  | remove _ => True

section

variable {t t' : FileTree} {r r' : Route} {piece : List Char} {path : String}

theorem wellFormed_empty : WellFormed {} := ⟨List.forall_mem_nil _, .nil⟩

/-- Only the files count. -/
theorem WellFormed.of_files_eq (h : t.WellFormed) (hfiles : t'.files = t.files) : t'.WellFormed := by
  refine ⟨?_, ?_⟩
  · rw [Named, hfiles]
    exact h.named
  · rw [InOrder, hfiles]
    exact h.inOrder

theorem WellFormed.write (h : t.WellFormed) (hr : r.Proper) (f : File) : (t.write r f).WellFormed := by
  refine ⟨fun e he => ?_, Ordered.pairwise_put h.inOrder⟩
  rcases Ordered.mem_put he with rfl | he
  · exact hr
  · exact h.named e he

theorem WellFormed.remove (h : t.WellFormed) (r : Route) : (t.remove r).WellFormed :=
  ⟨fun e he => h.named e (List.mem_of_mem_filter he), h.inOrder.filter _⟩

/-- **One change** keeps a tree well formed. -/
theorem WellFormed.change (h : t.WellFormed) {c : Change} (hc : c.Proper) : (c.apply t).WellFormed := by
  cases c with
  | write r f => exact h.write hc f
  | addFolder r => exact h.of_files_eq rfl
  | remove r => exact h.remove r

/-- **Any number of changes** keep it so. -/
theorem WellFormed.changes (h : t.WellFormed) {cs : List Change} (hcs : ∀ c ∈ cs, c.Proper) :
    (cs.foldl Change.apply t).WellFormed := by
  induction cs generalizing t with
  | nil => exact h
  | cons c cs ih =>
    obtain ⟨hc, hcs⟩ := List.forall_mem_cons.1 hcs
    exact ih (h.change hc) hcs

/-! ## Where paths lead -/

/-- What following a piece of a path can come to. -/
inductive Follows (r : Route) (piece : List Char) : Except FileFault Route → Prop
  | outside : Follows r piece (.error .notFolder)
  | stays : Follows r piece (.ok r)
  | up : Follows r piece (.ok r.dropLast)
  | down (h : Route.Proper (r ++ [String.ofList piece])) :
    Follows r piece (.ok (r ++ [String.ofList piece]))
  | missing (h : Route.Proper (r ++ [String.ofList piece])) : Follows r piece (.error .notFound)

theorem follow_spec (t : FileTree) (hr : r.Proper) (hslash : '/' ∉ piece) :
    Follows r piece (t.follow r piece) := by
  unfold follow
  split
  · exact .outside
  split
  · exact .stays
  split
  · exact .up
  rename_i hsilent hup
  have hproper : Route.Proper (r ++ [String.ofList piece]) := by
    refine hr.append fun n hn => ?_
    rw [List.mem_singleton.1 hn]
    exact isName_ofList hslash (by simpa using hsilent) hup
  simp only
  split
  · exact .down hproper
  · exact .missing hproper

theorem proper_follow (hr : r.Proper) (hslash : '/' ∉ piece) (h : t.follow r piece = .ok r') :
    r'.Proper := by
  have hspec := follow_spec t hr hslash
  rw [h] at hspec
  cases hspec with
  | stays => exact hr
  | up => exact fun n hn => hr n (List.dropLast_subset r hn)
  | down hproper => exact hproper

/-- **A path leads to a proper route**, or nowhere. -/
theorem proper_of_resolve (h : t.resolve path = .ok r) : r.Proper := by
  unfold resolve at h
  split at h
  · cases h
  · refine foldlM_keeps (P := Route.Proper) (fun piece hpiece r r' hr hnext => ?_) ?_ h
    · exact proper_follow hr (not_mem_of_mem_splitAtChar hpiece) hnext
    · exact List.forall_mem_nil _

/-- Making a folder changes no file, and leads to a proper route. -/
theorem enter_keeps {here next : FileTree × Route} (hr : here.2.Proper) (hslash : '/' ∉ piece)
    (h : enter here piece = .ok next) : next.1.files = here.1.files ∧ next.2.Proper := by
  obtain ⟨t, r⟩ := here
  unfold enter at h
  simp only at h
  split at h
  · rename_i r' hfollow
    split at h
    · rw [← Except.ok.inj h]
      exact ⟨rfl, proper_follow hr hslash hfollow⟩
    · cases h
  · rename_i hfollow
    have hspec := follow_spec t hr hslash
    rw [hfollow] at hspec
    cases hspec with
    | missing hproper =>
      rw [← Except.ok.inj h]
      exact ⟨rfl, hproper⟩
  · cases h

theorem makeFolders_keeps (h : t.makeFolders path = .ok (t', r)) : t'.files = t.files ∧ r.Proper := by
  refine foldlM_keeps (P := fun next => next.1.files = t.files ∧ next.2.Proper)
    (fun piece hpiece here next hhere hnext => ?_) ⟨rfl, List.forall_mem_nil _⟩ h
  obtain ⟨hfiles, hproper⟩ := enter_keeps hhere.2 (not_mem_of_mem_splitAtChar hpiece) hnext
  exact ⟨hfiles.trans hhere.1, hproper⟩

end

end FileTree

/-! ## Workspaces -/

namespace Workspace

open FileTree

variable {t : FileTree}

theorem openDatabase_keeps (h : t.WellFormed) (folder : String) :
    (openDatabase t folder).1.WellFormed ∧
      ∀ place s, (openDatabase t folder).2 = some (place, s) → place.Proper := by
  unfold openDatabase
  split
  · exact ⟨h, nofun⟩
  · rename_i t' made hmade
    obtain ⟨hfiles, hmade⟩ := makeFolders_keeps hmade
    have htree : t'.WellFormed := h.of_files_eq hfiles
    have hplace : Route.Proper (made ++ [databaseName]) := by
      refine hmade.append fun n hn => ?_
      rw [List.mem_singleton.1 hn]
      decide
    -- No case changes the tree, and a database that is found or made is at that one place.
    simp only
    split
    · exact ⟨htree, nofun⟩
    split
    · refine ⟨htree, fun place s hfound => ?_⟩
      cases hfound
      exact hplace
    · refine ⟨htree, fun place s hfound => ?_⟩
      split at hfound <;> cases hfound
      exact hplace
    · refine ⟨htree, fun place s hfound => ?_⟩
      split at hfound <;> cases hfound
      exact hplace

section

variable (t : FileTree) (c : Config) (root : String) (database : Option Route) (s : Store)

@[simp] theorem root_build : (build t c root database s).root = root := rfl

@[simp] theorem database_build : (build t c root database s).database = database := rfl

end

theorem commit_keeps (h : t.WellFormed) {w : Workspace}
    (hplace : ∀ place, w.database = some place → place.Proper) : (commit t w).WellFormed := by
  unfold commit
  split
  · exact h
  · rename_i place hdatabase
    exact h.write (hplace place hdatabase) _

/-- **Opening a workspace** keeps the tree well formed, whatever is found in it, and the root that is
opened is the path of a proper route. -/
theorem openAt_keeps (h : t.WellFormed) (here root : String) :
    (openAt t here root).1.WellFormed ∧
      ∀ w, (openAt t here root).2 = .ok w → ∃ r : Route, r.Proper ∧ w.root = r.text := by
  unfold openAt
  split
  · exact ⟨h, nofun⟩
  · rename_i r hres
    obtain ⟨htree, hplace⟩ := openDatabase_keeps h (Path.join r.text (Config.load t r.text).cacheDir)
    simp only
    split
    · rename_i place s hfound
      refine ⟨commit_keeps htree fun p hp => ?_, fun w hw => ⟨r, proper_of_resolve hres, ?_⟩⟩
      · rw [database_build] at hp
        exact Option.some.inj hp ▸ hplace place s hfound
      · rw [← Except.ok.inj hw, root_build]
    · refine ⟨commit_keeps htree fun p hp => ?_, fun w hw => ⟨r, proper_of_resolve hres, ?_⟩⟩
      · rw [database_build] at hp
        cases hp
      · rw [← Except.ok.inj hw, root_build]

/-- **Closing one** does as well: a file is written over where the workspace had its database. -/
theorem close_keeps (h : t.WellFormed) (w : Workspace) : (close t w).WellFormed := by
  unfold close
  split
  · exact h
  · rename_i place _
    split
    · rename_i s held modified hfile
      obtain ⟨front, rest, hfiles, -⟩ := List.lookup_eq_some_iff.1 hfile
      have hplace : Route.Proper place := h.named (place, ⟨.database s held, modified⟩) (by simp [hfiles])
      exact h.write hplace _
    · exact h

end Workspace

end ScriptAtlas
