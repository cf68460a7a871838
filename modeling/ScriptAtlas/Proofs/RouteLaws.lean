/-
The path of a route. It is followed to the route it was made from, its
components are the names of the route, and what a walk finds below it is the
path of a longer route. Files with different routes get different keys in the
cache, whatever folder of the cache each of them is kept in.
-/
import Mathlib.Data.List.Basic
import Mathlib.Data.List.Induction
import Mathlib.Data.String.Basic
import ScriptAtlas.Proofs.PathLaws
import ScriptAtlas.Units

namespace ScriptAtlas

open ScriptAtlas.Path Text

theorem intercalate_concat {α : Type} (sep last : List α) {pieces : List (List α)} (h : pieces ≠ []) :
    sep.intercalate (pieces ++ [last]) = sep.intercalate pieces ++ sep ++ last := by
  induction pieces with
  | nil => exact absurd rfl h
  | cons p pieces ih =>
    cases pieces with
    | nil => simp [List.intercalate_cons_cons]
    | cons q pieces =>
      have hrest := ih (by simp)
      rw [List.cons_append, List.cons_append, List.intercalate_cons_cons, List.intercalate_cons_cons,
        ← List.cons_append, hrest]
      simp

namespace Route

/-- The names of the route can name files. -/
def Proper (r : Route) : Prop := ∀ n ∈ r, IsName n

instance (r : Route) : Decidable r.Proper := inferInstanceAs (Decidable (∀ n ∈ r, IsName n))

theorem Proper.append {r r' : Route} (h : r.Proper) (h' : r'.Proper) : (r ++ r').Proper :=
  fun n hn => (List.mem_append.1 hn).elim (h n) (h' n)

theorem Proper.left {r r' : Route} (h : (r ++ r').Proper) : r.Proper :=
  fun n hn => h n (List.mem_append_left r' hn)

theorem toList_text (r : Route) : r.text.toList = '/' :: ['/'].intercalate (r.map String.toList) := by
  simp [Route.text, String.toList_intercalate]

/-- One more name stands behind a slash. -/
theorem toList_text_concat {r : Route} (h : r ≠ []) (n : String) :
    (Route.text (r ++ [n])).toList = r.text.toList ++ '/' :: n.toList := by
  have hne : r.map String.toList ≠ [] := by simpa using h
  rw [toList_text, toList_text, List.map_append, List.map_singleton, intercalate_concat _ _ hne]
  simp

/-- Only the path of the empty route ends in a slash. -/
theorem getLast?_text {r : Route} (h : r.Proper) : r.text.toList.getLast? = some '/' ↔ r = [] := by
  constructor
  · intro hlast
    by_contra hne
    obtain ⟨s, m, rfl⟩ : ∃ s m, r = s ++ [m] := ⟨_, _, (List.dropLast_concat_getLast hne).symm⟩
    obtain ⟨hempty, -, -, hslash⟩ := h m (by simp)
    have hm : m.toList ≠ [] := by simpa using hempty
    have hend : (Route.text (s ++ [m])).toList.getLast? = m.toList.getLast? := by
      by_cases hs : s = []
      · subst hs
        simp [toList_text, List.getLast?_cons, List.getLast?_eq_some_getLast hm]
      · simp [toList_text_concat hs, List.getLast?_append, List.getLast?_cons,
          List.getLast?_eq_some_getLast hm]
    rw [hend] at hlast
    exact hslash (List.mem_of_getLast? hlast)
  · rintro rfl
    rfl

/-- A name joined to the path of a route gives the path of the longer route. -/
theorem join_text {r : Route} (h : r.Proper) {n : String} (hn : IsName n) :
    join r.text n = Route.text (r ++ [n]) := by
  have hempty : r.text ≠ "" := by
    intro he
    simpa [he] using toList_text r
  apply String.toList_inj.1
  rw [toList_join hn hempty]
  by_cases hr : r = []
  · subst hr
    simp [toList_text]
  · rw [if_neg (fun hlast => hr ((getLast?_text h).1 hlast)), toList_text_concat hr]

theorem pathBelow_text {r names : Route} (h : r.Proper) (hnames : names.Proper) :
    Discovery.pathBelow r.text names = Route.text (r ++ names) := by
  induction names generalizing r with
  | nil => simp [Discovery.pathBelow]
  | cons n names ih =>
    have hn : IsName n := hnames n (by simp)
    have hlonger : Proper (r ++ [n]) := h.append (by simpa [Proper] using hn)
    have hrest := ih hlonger fun m hm => hnames m (by simp [hm])
    rw [← join_text h hn, List.append_assoc] at hrest
    exact hrest

/-- **The components of the path of a route** are the root and the names of the route. -/
theorem components_text {r : Route} (h : r.Proper) : components r.text = .root :: r.map .name := by
  have hpath := Discovery.components_pathBelow (Route.text []) h
  rw [pathBelow_text (r := []) (by simp [Proper]) h] at hpath
  exact hpath

theorem text_injective {r r' : Route} (h : r.Proper) (h' : r'.Proper) (heq : r.text = r'.text) : r = r' := by
  have hcomp := congrArg components heq
  rw [components_text h, components_text h'] at hcomp
  exact (List.map_inj_right fun _ _ he => Component.name.inj he).1 (List.cons.inj hcomp).2

theorem fileName?_text {r : Route} (h : r.Proper) : fileName? r.text = r.getLast? := by
  rw [fileName?, components_text h]
  cases r using List.reverseRecOn with
  | nil => rfl
  | append_singleton s m => simp [List.getLast?_cons]

/-- The route that the path of a route spells out is that route. -/
theorem ofPath_text {r : Route} (h : r.Proper) : Route.ofPath r.text = r := by
  rw [Route.ofPath, components_text h]
  clear h
  induction r using List.reverseRecOn with
  | nil => rfl
  | append_singleton s m ih =>
    rw [List.map_append, ← List.cons_append, List.foldl_append, ih]
    rfl

/-! ## Following the path of a route -/

theorem splitAtChar_text {r : Route} (h : r.Proper) (hr : r ≠ []) :
    splitAtChar '/' r.text.toList = [] :: r.map String.toList := by
  have hpieces : ∀ p ∈ r.map String.toList, '/' ∉ p := by
    simpa using fun n hn => (h n hn).not_mem
  rw [toList_text, splitAtChar, if_pos rfl, splitAtChar_eq_splitOn,
    List.splitOn_intercalate '/' hpieces (by simpa using hr)]

/-- **The parent of the path of a route** is the path of the route without its last name. -/
theorem parent?_text {r : Route} (h : r.Proper) {n : String} (hn : IsName n) :
    parent? (Route.text (r ++ [n])) = some r.text := by
  have hproper : Proper (r ++ [n]) := h.append (by simpa [Proper] using hn)
  have hsplit : splitAtChar '/' (['/'].intercalate ((r ++ [n]).map String.toList)) =
      r.map String.toList ++ [n.toList] := by
    have hall := splitAtChar_text hproper (by simp)
    rw [toList_text, splitAtChar, if_pos rfl] at hall
    simpa using (List.cons.inj hall).2
  have hsilent : (r.map String.toList).reverse.dropWhile isSilent = (r.map String.toList).reverse := by
    apply List.dropWhile_eq_self_iff.2
    intro hlen
    rw [Bool.not_eq_true]
    obtain ⟨m, hm, hmeq⟩ := List.mem_map.1 (List.mem_reverse.1 (List.getElem_mem hlen))
    rw [← hmeq]
    exact (h m hm).not_isSilent
  unfold parent?
  rw [toList_text, splitLead]
  simp only [hsplit, List.reverse_append, List.reverse_singleton, List.singleton_append,
    List.dropWhile_cons, hn.not_isSilent,
    Bool.false_eq_true, if_false, hsilent, List.reverse_reverse]
  rw [joinWith, ← toList_text, String.ofList_toList]

end Route

/-! ## Following the path of a route -/

namespace FileTree

/-- The files of a tree stand in the order of their routes. -/
def InOrder (t : FileTree) : Prop := t.files.Pairwise (·.1 < ·.1)

instance (t : FileTree) : Decidable t.InOrder := inferInstanceAs (Decidable (t.files.Pairwise _))

variable {t : FileTree}

theorem follow_name {r r' : Route} {n : String} (hn : IsName n) (h : t.follow r n.toList = .ok r') :
    r' = r ++ [n] := by
  unfold follow at h
  rw [hn.not_isSilent, String.ofList_toList] at h
  by_cases hfolder : t.isFolder r = true
  · simp only [hfolder, Bool.not_true, Bool.false_eq_true, if_false, if_neg hn.not_up] at h
    split at h
    · exact (Except.ok.inj h).symm
    · cases h
  · simp only [hfolder, Bool.not_false, if_true] at h
    cases h

theorem foldlM_follow {names : Route} (hnames : names.Proper) {r r' : Route}
    (h : (names.map String.toList).foldlM t.follow r = .ok r') : r' = r ++ names := by
  induction names generalizing r with
  | nil => simpa using (Except.ok.inj h).symm
  | cons n names ih =>
    rw [List.map_cons, List.foldlM_cons] at h
    cases hn : t.follow r n.toList with
    | error e =>
      rw [hn] at h
      cases h
    | ok next =>
      rw [hn] at h
      have hrest := ih (fun m hm => hnames m (by simp [hm])) h
      rw [hrest, follow_name (hnames n (by simp)) hn, List.append_assoc, List.singleton_append]

/-- **The path of a route leads to the route**, or nowhere. -/
theorem resolve_text {r r' : Route} (hr : r.Proper) (h : t.resolve r.text = .ok r') : r' = r := by
  have hempty : (Route.text r).isEmpty = false := by
    have hne : r.text ≠ "" := fun he => by simpa [he] using Route.toList_text r
    simpa using hne
  have hroot : t.follow [] [] = .ok [] := rfl
  rw [resolve, hempty] at h
  by_cases hnil : r = []
  · subst hnil
    have hslash : splitAtChar '/' (Route.text []).toList = [[], []] := rfl
    simp only [Bool.false_eq_true, if_false, hslash, List.foldlM_cons, List.foldlM_nil, hroot] at h
    exact (Except.ok.inj h).symm
  · simp only [Bool.false_eq_true, if_false, Route.splitAtChar_text hr hnil, List.foldlM_cons, hroot] at h
    simpa using foldlM_follow hr h

end FileTree

/-! ## What a walk finds below the path of a route -/

namespace Discovery

variable {t : FileTree} {c : Config} {r : Route} {keep : String → Bool}

/-- The names from a folder to the files that a walk from it finds. -/
def namesBelow (t : FileTree) (c : Config) (r : Route) (keep : String → Bool) : List Route :=
  (filesBelow t r).filter fun names =>
    c.shouldInclude ("/".intercalate names) && keep (Route.text (r ++ names)) &&
      reaches (IgnoreRule.allRules t) r names

theorem mem_filesBelow {names : Route} : names ∈ filesBelow t r ↔ r ++ names ∈ t.files.map (·.1) := by
  simp only [filesBelow, List.mem_filterMap, Option.ite_none_right_eq_some, Option.some.injEq,
    List.isPrefixOf_iff_prefix, List.mem_map]
  constructor
  · rintro ⟨e, he, ⟨rest, hrest⟩, rfl⟩
    refine ⟨e, he, ?_⟩
    rw [← hrest, List.drop_left]
  · rintro ⟨e, he, hroute⟩
    refine ⟨e, he, ?_, ?_⟩
    · rw [hroute]
      exact List.prefix_append r names
    · rw [hroute, List.drop_left]

theorem proper_of_mem_filesBelow (ht : t.Named) {names : Route} (h : names ∈ filesBelow t r) :
    names.Proper := by
  obtain ⟨e, he, hroute⟩ := List.mem_map.1 (mem_filesBelow.1 h)
  intro n hn
  exact ht e he n (by simp [hroute, hn])

theorem nodup_filesBelow (hord : t.InOrder) : (filesBelow t r).Nodup := by
  refine List.Pairwise.filterMap _ ?_ hord
  intro e e' hlt names hnames names' hnames' heq
  simp only [Option.ite_none_right_eq_some, Option.some.injEq, List.isPrefixOf_iff_prefix] at hnames hnames'
  obtain ⟨⟨⟨rest, hrest⟩, hdrop⟩, ⟨rest', hrest'⟩, hdrop'⟩ := And.intro hnames hnames'
  rw [← hrest, List.drop_left] at hdrop
  rw [← hrest', List.drop_left] at hdrop'
  have hsame : e.1 = e'.1 := by rw [← hrest, ← hrest', hdrop, hdrop', heq]
  exact List.lt_irrefl _ (hsame ▸ hlt)

theorem find_folder (ht : t.Named) (hr : r.Proper) (hres : t.resolve r.text = .ok r)
    (hfolder : t.isFolder r = true) : find t c r.text keep =
      .ok ((inOrder (namesBelow t c r keep)).map fun names => Route.text (r ++ names)) := by
  have hpath {names : Route} (h : names ∈ filesBelow t r) :
      pathBelow r.text names = Route.text (r ++ names) :=
    Route.pathBelow_text hr (proper_of_mem_filesBelow ht h)
  have hnames : (filesBelow t r).filter (fun names => c.shouldInclude ("/".intercalate names) &&
      keep (pathBelow r.text names) && reaches (IgnoreRule.allRules t) r names) =
        namesBelow t c r keep :=
    List.filter_congr fun names h => by rw [hpath h]
  rw [find, hres]
  simp only [hfolder, if_true, Except.ok.injEq, hnames]
  refine List.map_congr_left fun names h => hpath ?_
  rw [mem_inOrder] at h
  exact List.mem_of_mem_filter h

theorem exists_route_of_mem_find (ht : t.Named) (hr : r.Proper) {path : String}
    (h : path ∈ ((find t c r.text keep).toOption).getD []) :
    keep path = true ∧ ∃ q : Route, q.Proper ∧ path = q.text := by
  obtain ⟨hkeep, names, hnames, rfl⟩ := exists_names_of_mem_find ht h
  exact ⟨hkeep, r ++ names, hr.append hnames, Route.pathBelow_text hr hnames⟩

/-- **What a walk finds** are the paths of routes below its start, each once and in order. -/
theorem exists_routes_find (ht : t.Named) (hord : t.InOrder) (hr : r.Proper) :
    ∃ routes : List Route, ((find t c r.text keep).toOption).getD [] = routes.map Route.text ∧
      routes.Pairwise (· < ·) ∧ ∀ q ∈ routes, q.Proper ∧ keep q.text = true := by
  cases hres : t.resolve r.text with
  | error e => exact ⟨[], by simp [find, hres, Except.toOption]⟩
  | ok route =>
    obtain rfl := FileTree.resolve_text hr hres
    by_cases hfolder : t.isFolder route = true
    · have hsorted : (inOrder (namesBelow t c route keep)).Pairwise (· < ·) :=
        Ordered.pairwise_sort ((nodup_filesBelow hord).filter _)
      refine ⟨(inOrder (namesBelow t c route keep)).map (route ++ ·), ?_, List.pairwise_map.2 ?_, ?_⟩
      · simp [find_folder ht hr hres hfolder, Except.toOption]
      · exact hsorted.imp fun hlt => List.append_left_lt hlt
      · intro q hq
        simp only [List.mem_map, mem_inOrder, namesBelow, List.mem_filter,
          Bool.and_eq_true] at hq
        obtain ⟨names, ⟨hbelow, ⟨-, hkeep⟩, -⟩, rfl⟩ := hq
        exact ⟨hr.append (proper_of_mem_filesBelow ht hbelow), hkeep⟩
    · by_cases hwanted : ((fileName? route.text).any c.shouldInclude && keep route.text) = true
      · refine ⟨[route], by simp [find, hres, hfolder, hwanted, Except.toOption], by simp, ?_⟩
        intro q hq
        obtain rfl := List.mem_singleton.1 hq
        exact ⟨hr, (Bool.and_eq_true _ _ ▸ hwanted).2⟩
      · exact ⟨[], by simp [find, hres, hfolder, hwanted, Except.toOption]⟩

end Discovery

/-! ## Keys in the cache -/

namespace Path

theorem bodyComponents_intercalate {r : Route} (h : r.Proper) :
    bodyComponents (['/'].intercalate (r.map String.toList)) = r.map .name := by
  have htext := Route.components_text h
  rw [components_eq, Route.toList_text, charComponents, splitLead] at htext
  simpa [leadComponent] using htext

/-- Names with slashes between them are read back as these names. -/
theorem components_slashed_names {r : Route} (h : r.Proper) :
    components (slashed (r.map .name)) = r.map .name := by
  have hlead : splitLead (['/'].intercalate (r.map String.toList)) =
      ([], ['/'].intercalate (r.map String.toList)) := by
    cases r with
    | nil => rfl
    | cons n r =>
      have hn : IsName n := h n (by simp)
      cases r with
      | nil => simpa using splitLead_name hn
      | cons m r =>
        have hne : n.toList ≠ [] := by simpa using hn.1
        rw [List.map_cons, List.map_cons, List.intercalate_cons_cons, List.append_assoc,
          List.singleton_append, splitLead_append hne, splitLead_name hn]
  have htext : (slashed (r.map .name)).toList = ['/'].intercalate (r.map String.toList) := by
    simp [slashed, String.toList_intercalate, Function.comp_def, Component.text]
  rw [components_eq, htext, charComponents, hlead, bodyComponents_intercalate h]
  rfl

/-- So are the components of the path of a route, which start with the root. -/
theorem components_slashed_text {r : Route} (h : r.Proper) :
    components (slashed (components r.text)) = components r.text := by
  rw [Route.components_text h]
  by_cases hr : r = []
  · subst hr
    rfl
  · have htext : (slashed (.root :: r.map .name)).toList =
        '/' :: '/' :: ['/'].intercalate (r.map String.toList) := by
      have hne : (r.map String.toList) ≠ [] := by simpa using hr
      simp [slashed, String.toList_intercalate, Function.comp_def, Component.text,
        List.intercalate_cons_of_ne_nil hne]
    have hbody := bodyComponents_append [] (['/'].intercalate (r.map String.toList))
    rw [List.nil_append, bodyComponents_nil, List.nil_append, bodyComponents_intercalate h] at hbody
    rw [components_eq, htext, charComponents, splitLead, hbody]
    rfl

/-- What the path of a route has below a path: all of it, or some of the names at its end. -/
theorem under?_text {r : Route} (h : r.Proper) {base : String} {below : List Component}
    (hbelow : under? base r.text = some below) :
    components base = [] ∧ below = components r.text ∨ ∃ k, below = (r.drop k).map .name := by
  rw [under?_eq_some_iff] at hbelow
  cases hbase : components base with
  | nil => exact .inl ⟨rfl, by rw [hbelow, hbase, List.nil_append]⟩
  | cons first cs =>
    rw [Route.components_text h, hbase, List.cons_append] at hbelow
    have hnames := (List.cons.inj hbelow).2
    refine .inr ⟨cs.length, ?_⟩
    rw [List.map_drop, hnames, List.drop_left]

end Path

/-- The components that the key of a file in a workspace is made of. -/
def keyParts (root path : String) : List Component := (under? root path).getD (components path)

theorem cacheKey_eq (folder root path : String) :
    cacheKey folder root path = folder ++ "/" ++ slashed (keyParts root path) := rfl

theorem components_slashed_keyParts (root : String) {r : Route} (h : r.Proper) :
    components (slashed (keyParts root r.text)) = keyParts root r.text := by
  unfold keyParts
  cases hu : under? root r.text with
  | none => exact components_slashed_text h
  | some below =>
    rcases under?_text h hu with ⟨-, rfl⟩ | ⟨k, rfl⟩
    · exact components_slashed_text h
    · exact components_slashed_names fun n hn => h n (List.mem_of_mem_drop hn)

/-- Only names are left of a path below a root that has components, so what is left of one path is
not all of another. -/
theorem keyParts_ne {root : String} {r r' : Route} (h : r.Proper) (h' : r'.Proper)
    {below : List Component} (hu : under? root r.text = some below) (hu' : under? root r'.text = none) :
    below ≠ components r'.text := by
  rintro rfl
  rcases under?_text h hu with ⟨hroot, -⟩ | ⟨k, hk⟩
  · have hsome : under? root r'.text = some (components r'.text) :=
      under?_eq_some_iff.2 (by rw [hroot, List.nil_append])
    rw [hsome] at hu'
    cases hu'
  · have hmem : Component.root ∈ (r.drop k).map Component.name := by
      rw [← hk, Route.components_text h']
      exact List.mem_cons_self
    obtain ⟨n, -, hn⟩ := List.mem_map.1 hmem
    cases hn

theorem keyParts_injective {root : String} {r r' : Route} (h : r.Proper) (h' : r'.Proper)
    (heq : keyParts root r.text = keyParts root r'.text) : r = r' := by
  have hcomp : components r.text = components r'.text := by
    unfold keyParts at heq
    cases hu : under? root r.text with
    | none =>
      cases hu' : under? root r'.text with
      | none => simpa [hu, hu'] using heq
      | some below => exact absurd (by simpa [hu, hu'] using heq.symm) (keyParts_ne h' h hu' hu)
    | some below =>
      cases hu' : under? root r'.text with
      | none => exact absurd (by simpa [hu, hu'] using heq) (keyParts_ne h h' hu hu')
      | some below' =>
        obtain rfl : below = below' := by simpa [hu, hu'] using heq
        rw [under?_eq_some_iff.1 hu, under?_eq_some_iff.1 hu']
  rw [Route.components_text h, Route.components_text h'] at hcomp
  exact (List.map_inj_right fun _ _ he => Component.name.inj he).1 (List.cons.inj hcomp).2

/-- **Files have keys of their own**: different routes get different keys, in one folder of the cache
and across the two. -/
theorem cacheKey_injective {root folder folder' : String} {r r' : Route} (h : r.Proper) (h' : r'.Proper)
    (hf : folder ∈ [globalsFolder, unitsFolder]) (hf' : folder' ∈ [globalsFolder, unitsFolder])
    (heq : cacheKey folder root r.text = cacheKey folder' root r'.text) : folder = folder' ∧ r = r' := by
  have hfolder : folder = folder' := by
    have hfirst := congrArg (fun s => s.toList.head?) heq
    simp only [List.mem_cons, List.not_mem_nil, or_false] at hf hf'
    rcases hf with rfl | rfl <;> rcases hf' with rfl | rfl <;>
      simp [cacheKey, globalsFolder, unitsFolder] at hfirst ⊢
  subst hfolder
  have hslashed : slashed (keyParts root r.text) = slashed (keyParts root r'.text) := by
    have hlist := congrArg String.toList heq
    simp only [cacheKey_eq, String.toList_append] at hlist
    exact String.toList_inj.1 (List.append_cancel_left hlist)
  have hparts := congrArg components hslashed
  rw [components_slashed_keyParts root h, components_slashed_keyParts root h'] at hparts
  exact ⟨rfl, keyParts_injective h h' hparts⟩

end ScriptAtlas
