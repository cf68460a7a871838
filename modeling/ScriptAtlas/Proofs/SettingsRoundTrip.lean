/-
What is written into a settings file is what is read from it. `Assigns` is the
form of a line that sets a key: blanks are free around the colon, the comma may
be missing, and the value may hold quotes and commas of its own. A line has at
most one reading of that form, since the value goes up to the last quote.

From there on the text is a list of lines, the last line that sets a key
decides, and the names under one key are the pieces between its commas.
-/
import Mathlib.Data.List.Basic
import ScriptAtlas.Proofs.TextLaws
import ScriptAtlas.Settings

namespace ScriptAtlas

open Text

namespace Settings

/-! ## A line that sets a key -/

/-- The line sets the key to the value. -/
inductive Assigns : List Char → String → String → Prop
  | line (key value : String) (before after close : List Char) (hne : key ≠ "")
    (hkey : ∀ c ∈ key.toList, isKeyChar c = true) (hbefore : ∀ c ∈ before, isBlank c = true)
    (hafter : ∀ c ∈ after, isBlank c = true) (hclose : close = [] ∨ close = [',']) :
    Assigns (key.toList ++ (before ++ ':' :: (after ++ '\x22' :: (value.toList ++ '\x22' :: close))))
      key value

theorem isBlank_of_isKeyChar {c : Char} (h : isKeyChar c = true) : isBlank c = false := by
  have hrange : 48 ≤ c.toNat ∧ c.toNat ≤ 122 := by
    unfold isKeyChar Char.isAlphanum Char.isAlpha Char.isUpper Char.isLower Char.isDigit at h
    simp only [Bool.or_eq_true, Bool.and_eq_true, decide_eq_true_eq, beq_iff_eq,
      UInt32.le_iff_toNat_le, ge_iff_le] at h
    change (((65 ≤ c.toNat ∧ c.toNat ≤ 90) ∨ 97 ≤ c.toNat ∧ c.toNat ≤ 122) ∨
      48 ≤ c.toNat ∧ c.toNat ≤ 57) ∨ c = '_' at h
    rcases h with h | rfl
    · omega
    · decide
  simp only [isBlank, Bool.or_eq_false_iff, Bool.and_eq_false_iff, decide_eq_false_iff_not,
    beq_eq_false_iff_ne]
  omega

theorem isKeyChar_of_isBlank {c : Char} (h : isBlank c = true) : isKeyChar c = false := by
  by_contra hkey
  rw [isBlank_of_isKeyChar (by simpa using hkey)] at h
  cases h

/-- The value goes up to the last quote, which stands at the end or before a comma there. -/
theorem dropTail?_quote_eq_some_iff {s value : List Char} :
    dropTail? ['\x22'] ((dropTail? [','] s).getD s) = some value ↔
      ∃ close, (close = [] ∨ close = [',']) ∧ s = value ++ '\x22' :: close := by
  constructor
  · intro h
    cases hcomma : dropTail? [','] s with
    | none =>
      rw [hcomma] at h
      exact ⟨[], .inl rfl, dropTail?_eq_some_iff.1 h⟩
    | some body =>
      rw [hcomma] at h
      obtain rfl := dropTail?_eq_some_iff.1 hcomma
      obtain rfl := dropTail?_eq_some_iff.1 h
      exact ⟨[','], .inr rfl, by simp⟩
  · rintro ⟨close, rfl | rfl, rfl⟩
    · -- a text that ends in a quote does not end in a comma
      have hcomma : dropTail? [','] (value ++ ['\x22']) = none := by
        by_contra h
        obtain ⟨body, hbody⟩ := Option.ne_none_iff_exists'.1 h
        have hlast := congrArg List.getLast? (dropTail?_eq_some_iff.1 hbody)
        simp at hlast
      rw [hcomma]
      exact dropTail?_append _ _
    · have hcomma : dropTail? [','] (value ++ ['\x22', ',']) = some (value ++ ['\x22']) :=
        dropTail?_eq_some_iff.2 (by simp)
      rw [hcomma]
      exact dropTail?_append _ _

theorem assignment?_eq (line : List Char) : assignment? line =
    if (line.takeWhile isKeyChar).isEmpty then none
    else (dropLead? [':'] (trimStart (line.dropWhile isKeyChar))).bind fun rest =>
      (dropLead? ['\x22'] (trimStart rest)).bind fun rest =>
        (dropTail? ['\x22'] ((dropTail? [','] rest).getD rest)).bind fun value =>
          some (String.ofList (line.takeWhile isKeyChar), String.ofList value) := by
  by_cases h : (line.takeWhile isKeyChar).isEmpty = true
  · simp only [assignment?, h]
    rfl
  · simp only [assignment?, h]
    rfl

theorem assigns_of_assignment?_eq {line : List Char} {key value : String}
    (h : assignment? line = some (key, value)) : Assigns line key value := by
  rw [assignment?_eq, ite_eq_iff] at h
  obtain ⟨-, h⟩ | ⟨hne, h⟩ := h
  · cases h
  obtain ⟨rest, hcolon, h⟩ := Option.bind_eq_some_iff.1 h
  obtain ⟨body, hquote, h⟩ := Option.bind_eq_some_iff.1 h
  obtain ⟨text, htext, h⟩ := Option.bind_eq_some_iff.1 h
  obtain ⟨rfl, rfl⟩ := Prod.mk.inj (Option.some.inj h)
  obtain ⟨close, hclose, rfl⟩ := dropTail?_quote_eq_some_iff.1 htext
  have hblanks (s : List Char) : s.takeWhile isBlank ++ trimStart s = s :=
    List.takeWhile_append_dropWhile
  have hline : line = line.takeWhile isKeyChar ++ ((line.dropWhile isKeyChar).takeWhile isBlank ++
      ':' :: (rest.takeWhile isBlank ++ '\x22' :: (text ++ '\x22' :: close))) := by
    have hrest := hblanks rest
    have hdrop := hblanks (line.dropWhile isKeyChar)
    rw [dropLead?_eq_some_iff.1 hquote] at hrest
    rw [dropLead?_eq_some_iff.1 hcolon, ← hrest] at hdrop
    nth_rewrite 1 [← List.takeWhile_append_dropWhile (p := isKeyChar) (l := line), ← hdrop]
    rfl
  have hassigns := Assigns.line (String.ofList (line.takeWhile isKeyChar)) (String.ofList text)
    ((line.dropWhile isKeyChar).takeWhile isBlank) (rest.takeWhile isBlank) close (by simpa using hne)
    (by simpa using fun c hc => List.mem_takeWhile_imp hc) (fun c hc => List.mem_takeWhile_imp hc)
    (fun c hc => List.mem_takeWhile_imp hc) hclose
  simp only [String.toList_ofList] at hassigns
  rwa [← hline] at hassigns

theorem Assigns.assignment?_eq {line : List Char} {key value : String} (h : Assigns line key value) :
    assignment? line = some (key, value) := by
  obtain ⟨key, value, before, after, close, hne, hkey, hbefore, hafter, hclose⟩ := h
  have hstop : ∀ c ∈ (before ++ ':' :: (after ++ '\x22' :: (value.toList ++ '\x22' :: close))).head?,
      isKeyChar c = false := by
    intro c hc
    rcases mem_of_mem_head?_append_cons hc with hc | rfl
    · exact isKeyChar_of_isBlank (hbefore c hc)
    · decide
  have hempty : key.toList.isEmpty = false := by simpa using hne
  have hcolon := dropLead?_append [':'] (after ++ '\x22' :: (value.toList ++ '\x22' :: close))
  have hquote := dropLead?_append ['\x22'] (value.toList ++ '\x22' :: close)
  have htail : dropTail? ['\x22'] ((dropTail? [','] (value.toList ++ '\x22' :: close)).getD
      (value.toList ++ '\x22' :: close)) = some value.toList :=
    dropTail?_quote_eq_some_iff.2 ⟨close, hclose, rfl⟩
  have hbefore := dropWhile_run (s := ':' :: (after ++ '\x22' :: (value.toList ++ '\x22' :: close))) hbefore
    (stops_at (by decide))
  have hafter := dropWhile_run (s := '\x22' :: (value.toList ++ '\x22' :: close)) hafter
    (stops_at (by decide))
  rw [List.singleton_append] at hcolon hquote
  rw [Settings.assignment?_eq, takeWhile_run hkey hstop, dropWhile_run hkey hstop, hempty]
  simp [trimStart, hbefore, hcolon, hafter, hquote, htail]

/-- **A line has one reading,** and it is found whenever there is one. -/
theorem assignment?_eq_some_iff {line : List Char} {key value : String} :
    assignment? line = some (key, value) ↔ Assigns line key value :=
  ⟨assigns_of_assignment?_eq, Assigns.assignment?_eq⟩

theorem assignment?_eq_none_iff {line : List Char} :
    assignment? line = none ↔ ∀ key value, ¬ Assigns line key value := by
  simp [Option.eq_none_iff_forall_ne_some, assignment?_eq_some_iff]

/-! ## The value of a key -/

/-- The last value that a key is given. -/
def last? (assigned : List (String × String)) (key : String) : Option String :=
  assigned.reverse.lookup key

section

variable (s : Settings) (key value : String)

theorem get?_insert_self : (s.insert key value).get? key = some value := by
  have hnone : (s.entries.filter (·.1 != key)).find? (·.1 == key) = none := by
    simp [List.find?_eq_none]
  simp [insert, get?, List.find?_append, hnone]

theorem get?_insert_other {other : String} (h : other ≠ key) :
    (s.insert key value).get? other = s.get? other := by
  have hfilter : (s.entries.filter (·.1 != key)).find? (·.1 == other) =
      s.entries.find? (·.1 == other) := by
    rw [List.find?_filter]
    congr
    funext e
    by_cases he : e.1 = other
    · simp [he, h]
    · simp [he]
  simp [insert, get?, List.find?_append, hfilter, Ne.symm h]

end

/-- The keys are told apart. -/
def Distinct (s : Settings) : Prop := (s.entries.map (·.1)).Nodup

theorem Distinct.insert {s : Settings} (h : s.Distinct) (key value : String) :
    (s.insert key value).Distinct := by
  have hkept : ((s.entries.filter (·.1 != key)).map (·.1)).Nodup :=
    h.sublist (List.filter_sublist.map _)
  simp only [Distinct, Settings.insert, List.map_append, List.map_cons, List.map_nil]
  refine List.nodup_append.2 ⟨hkept, by simp, ?_⟩
  rintro k hk k' hk' rfl
  simp only [List.mem_map, List.mem_filter, List.mem_singleton, bne_iff_ne] at hk hk'
  obtain ⟨e, ⟨-, hne⟩, rfl⟩ := hk
  exact hne hk'

/-- The settings after so many assignments. -/
theorem get?_foldl_insert (assigned : List (String × String)) (s : Settings) (key : String) :
    (assigned.foldl (fun s (k, v) => s.insert k v) s).get? key = (last? assigned key).or (s.get? key) := by
  induction assigned generalizing s with
  | nil => rfl
  | cons a assigned ih =>
    obtain ⟨k, v⟩ := a
    rw [List.foldl_cons, ih, last?, last?, List.reverse_cons, List.lookup_append, Option.or_assoc]
    by_cases h : key = k
    · subst h
      simp [get?_insert_self]
    · have hne : (key == k) = false := by simpa using h
      simp [get?_insert_other _ _ _ h, List.lookup_cons, hne]

theorem distinct_foldl_insert (assigned : List (String × String)) {s : Settings} (h : s.Distinct) :
    (assigned.foldl (fun s (k, v) => s.insert k v) s).Distinct := by
  induction assigned generalizing s with
  | nil => exact h
  | cons a assigned ih => exact ih (h.insert a.1 a.2)

/-! ## The lines of a text -/

/-- What the lines assign, one after another. -/
def assigned (ls : List (List Char)) : List (String × String) :=
  ls.filterMap fun l => assignment? (trim l)

/-- Line endings make no difference, and neither does an empty line at the end. -/
theorem filterMap_lines (s : List Char) :
    ((lines s).map trim).filterMap assignment? = assigned (splitAtChar '\n' s) := by
  obtain ⟨ls, last, hpieces⟩ : ∃ ls last, splitAtChar '\n' s = ls ++ [last] :=
    ⟨_, _, (List.dropLast_concat_getLast (splitAtChar_ne_nil '\n' s)).symm⟩
  have hno : ∀ l ∈ ls ++ [last], '\n' ∉ l := fun l hl => not_mem_of_mem_splitAtChar (hpieces ▸ hl)
  have hlines := lines_joinWith (fun l hl => hno l (List.mem_append_left _ hl)) (hno last (by simp))
  rw [← hpieces, joinWith_splitAtChar] at hlines
  have hlast : ((if last.isEmpty then [] else [last]).map trim).filterMap assignment? =
      [last].filterMap fun l => assignment? (trim l) := by
    cases last with
    | nil => rfl
    | cons c last => rfl
  rw [hlines, hpieces, assigned, List.map_append, List.filterMap_append, List.filterMap_append, hlast]
  simp [List.filterMap_map, Function.comp_def, trim_lineBody]

theorem parse_eq (content : String) : parse content =
    (assigned (splitAtChar '\n' content.toList)).foldl (fun s (k, v) => s.insert k v) {} := by
  rw [parse, filterMap_lines]

/-- **The last assignment decides.** -/
theorem get?_parse (content key : String) : (parse content).get? key =
    last? (assigned (splitAtChar '\n' content.toList)) key := by
  rw [parse_eq, get?_foldl_insert]
  exact Option.or_none

theorem distinct_parse (content : String) : (parse content).Distinct := by
  rw [parse_eq]
  exact distinct_foldl_insert _ List.nodup_nil

/-- The text's last line that sets the key sets it to this value. -/
def LastValue (content key value : String) : Prop :=
  ∃ before line after, splitAtChar '\n' content.toList = before ++ line :: after ∧
    Assigns (trim line) key value ∧ ∀ l ∈ after, ∀ v, ¬ Assigns (trim l) key v

theorem last?_assigned_append (ls ms : List (List Char)) (key : String) :
    last? (assigned (ls ++ ms)) key = (last? (assigned ms) key).or (last? (assigned ls) key) := by
  rw [assigned, List.filterMap_append, last?, List.reverse_append, List.lookup_append]
  rfl

theorem last?_assigned_singleton {l : List Char} {key value : String} :
    last? (assigned [l]) key = some value ↔ assignment? (trim l) = some (key, value) := by
  cases hl : assignment? (trim l) with
  | none => simp [assigned, hl, last?]
  | some e =>
    obtain ⟨k, v⟩ := e
    by_cases hk : key = k
    · simp [assigned, hl, last?, hk]
    · simp [assigned, hl, last?, hk, Ne.symm hk]

theorem last?_assigned_eq_none_iff {ls : List (List Char)} {key : String} :
    last? (assigned ls) key = none ↔ ∀ l ∈ ls, ∀ value, assignment? (trim l) ≠ some (key, value) := by
  induction ls with
  | nil => simp [assigned, last?]
  | cons l ls ih =>
    rw [← List.singleton_append, last?_assigned_append, Option.or_eq_none_iff, ih]
    simp [Option.eq_none_iff_forall_ne_some, last?_assigned_singleton, and_comm]

theorem last?_assigned_eq_some_iff {ls : List (List Char)} {key value : String} :
    last? (assigned ls) key = some value ↔ ∃ before line after, ls = before ++ line :: after ∧
      assignment? (trim line) = some (key, value) ∧
        ∀ l ∈ after, ∀ v, assignment? (trim l) ≠ some (key, v) := by
  constructor
  · intro h
    induction ls with
    | nil => cases h
    | cons l ls ih =>
      rw [← List.singleton_append, last?_assigned_append] at h
      cases hrest : last? (assigned ls) key with
      | none =>
        rw [hrest, Option.none_or] at h
        exact ⟨[], l, ls, rfl, last?_assigned_singleton.1 h, last?_assigned_eq_none_iff.1 hrest⟩
      | some v =>
        rw [hrest, Option.some_or] at h
        obtain ⟨before, line, after, rfl, hline, hafter⟩ := ih (hrest.trans h)
        exact ⟨l :: before, line, after, rfl, hline, hafter⟩
  · rintro ⟨before, line, after, rfl, hline, hafter⟩
    rw [List.append_cons, last?_assigned_append, last?_assigned_append,
      last?_assigned_eq_none_iff.2 hafter, last?_assigned_singleton.2 hline]
    rfl

theorem get?_parse_eq_some_iff {content key value : String} :
    (parse content).get? key = some value ↔ LastValue content key value := by
  simp only [get?_parse, last?_assigned_eq_some_iff, LastValue, ne_eq, assignment?_eq_some_iff]

/-! ## Writing -/

/-- A line of a settings file: a setting, with or without its comma, or something else. -/
inductive Line where
  | setting (key value : String) (comma : Bool)
  | other (text : String)

namespace Line

/-- The line as it is written. -/
def text : Line → List Char
  | setting key value comma =>
    key.toList ++ (':' :: ' ' :: '\x22' :: (value.toList ++ '\x22' :: if comma then [','] else []))
  | other text => text.toList

/-- The key is one, the value has no line feed, and what is something else is no setting. -/
def Proper : Line → Prop
  | setting key value _ => key ≠ "" ∧ (∀ c ∈ key.toList, isKeyChar c = true) ∧ '\n' ∉ value.toList
  | other text => '\n' ∉ text.toList ∧ ∀ key value, ¬ Assigns (trim text.toList) key value

instance : (l : Line) → Decidable l.Proper
  | setting key value _ => decidable_of_iff
    (key ≠ "" ∧ key.toList.all isKeyChar = true ∧ '\n' ∉ value.toList) (by rw [List.all_eq_true]; rfl)
  | other text => decidable_of_iff ('\n' ∉ text.toList ∧ assignment? (trim text.toList) = none)
    (by rw [assignment?_eq_none_iff]; rfl)

/-- The key and the value that are set. -/
def pair? : Line → Option (String × String)
  | setting key value _ => some (key, value)
  | other _ => none

theorem not_mem_text {l : Line} (h : l.Proper) : '\n' ∉ l.text := by
  cases l with
  | setting key value comma =>
    obtain ⟨-, hkey, hvalue⟩ := h
    have hno : '\n' ∉ key.toList := fun hc => absurd (hkey _ hc) (by decide)
    cases comma <;> simp [text, hno, hvalue]
  | other t => exact h.1

/-- The first character belongs to the key, and the last one is a quote or a comma. -/
theorem trimmed_setting {key : String} (value : String) (comma : Bool) (hne : key ≠ "")
    (hkey : ∀ c ∈ key.toList, isKeyChar c = true) : Trimmed (setting key value comma).text := by
  obtain ⟨d, ds, hd⟩ := List.exists_cons_of_ne_nil (l := key.toList) (by simpa using hne)
  constructor
  · rw [text, hd]
    exact stops_at (isBlank_of_isKeyChar (hkey d (by simp [hd])))
  · intro c hc
    cases comma with
    | true =>
      obtain rfl : ',' = c := by simpa [text, List.getLast?_append, List.getLast?_cons] using hc
      decide
    | false =>
      obtain rfl : '\x22' = c := by simpa [text, List.getLast?_append, List.getLast?_cons] using hc
      decide

theorem assignment?_text {l : Line} (h : l.Proper) : assignment? (trim l.text) = l.pair? := by
  cases l with
  | setting key value comma =>
    obtain ⟨hne, hkey, -⟩ := h
    rw [(trimmed_setting value comma hne hkey).trim_eq]
    refine (Assigns.line key value [] [' '] _ hne hkey nofun
      (List.forall_mem_singleton.2 rfl) ?_).assignment?_eq
    cases comma <;> simp
  | other t => exact assignment?_eq_none_iff.2 h.2

end Line

/-- The text of lines. -/
def fileText (ls : List Line) : String := String.ofList (joinWith ['\n'] (ls.map Line.text))

/-- What lines set, one after another. -/
def values (ls : List Line) : List (String × String) := ls.filterMap Line.pair?

theorem assigned_fileText {ls : List Line} (h : ∀ l ∈ ls, l.Proper) :
    assigned (splitAtChar '\n' (fileText ls).toList) = values ls := by
  rw [fileText, String.toList_ofList]
  by_cases hne : ls = []
  · subst hne
    rfl
  · have hno : ∀ t ∈ ls.map Line.text, '\n' ∉ t := by
      intro t ht
      obtain ⟨l, hl, rfl⟩ := List.mem_map.1 ht
      exact Line.not_mem_text (h l hl)
    rw [splitAtChar_joinWith hno (by simpa using hne), assigned, List.filterMap_map]
    exact List.filterMap_congr fun l hl => Line.assignment?_text (h l hl)

end Settings

/-! ## Units -/

namespace ProjectUnit

open Settings

/-- The names in a value, divided by commas. -/
def namesIn (value : String) : List String :=
  (((splitAtChar ',' value.toList).map trim).filter (!·.isEmpty)).map String.ofList

/-- Names can be told apart in a list of them. -/
def IsListed (name : String) : Prop := name ≠ "" ∧ Trimmed name.toList ∧ ',' ∉ name.toList

instance (name : String) : Decidable (IsListed name) := inferInstanceAs (Decidable (_ ∧ _))

theorem namesIn_intercalate {names : List String} (h : ∀ n ∈ names, IsListed n) :
    namesIn (",".intercalate names) = names := by
  by_cases hne : names = []
  · subst hne
    rfl
  · have hno : ∀ t ∈ names.map String.toList, ',' ∉ t := by
      simpa using fun n hn => (h n hn).2.2
    have hpieces : splitAtChar ',' (",".intercalate names).toList = names.map String.toList := by
      rw [String.toList_intercalate]
      exact splitAtChar_joinWith hno (by simpa using hne)
    have htrimmed : (names.map String.toList).map trim = names.map String.toList := by
      rw [List.map_map]
      exact List.map_congr_left fun n hn => (h n hn).2.1.trim_eq
    have hkept : (names.map String.toList).filter (!·.isEmpty) = names.map String.toList := by
      rw [List.filter_eq_self]
      simpa using fun n hn => (h n hn).1
    rw [namesIn, hpieces, htrimmed, hkept, List.map_map]
    simp [Function.comp_def]

theorem ofSettings?_eq (content path : String) : ofSettings? content path =
    ((parse content).get? "uuid").bind fun uuid =>
      if uuid.isEmpty then none
      else some
        { path := (Path.parent? path).getD "", settingsPath := path
          name := (Path.fileName? ((Path.parent? path).getD "")).getD "", uuid
          references := (((parse content).get? "modulesNames").map namesIn).getD [] } := by
  have hnames (o : Option String) : (o.map namesIn).getD [] =
      (((((o.map (splitAtChar ',' ·.toList)).getD []).map trim).filter (!·.isEmpty)).map String.ofList) := by
    cases o with
    | none => rfl
    | some value => rfl
  rw [hnames, ofSettings?]
  cases (parse content).get? "uuid" with
  | none => rfl
  | some uuid => simp

theorem ofSettings?_eq_none_iff {content path : String} : ofSettings? content path = none ↔
    ∀ uuid, (parse content).get? "uuid" = some uuid → uuid = "" := by
  rw [ofSettings?_eq]
  cases (parse content).get? "uuid" with
  | none => simp
  | some uuid => simp

/-- **Written settings are read back.** Each key has the last value that is written for it, whatever
quotes and commas the value holds and whatever other lines stand in between. A unit comes back with
its identifier and with its references, in their order and as often as they are listed; and a text
declares no unit exactly if its last identifier is missing or empty. -/
theorem written_settings_read_back (ls : List Line) (h : ∀ l ∈ ls, l.Proper) (path : String) :
    (∀ key, (parse (fileText ls)).get? key = last? (values ls) key) ∧
    (parse (fileText ls)).Distinct ∧
    (∀ uuid names, last? (values ls) "uuid" = some uuid → uuid ≠ "" →
      last? (values ls) "modulesNames" = some (",".intercalate names) → (∀ n ∈ names, IsListed n) →
      (ofSettings? (fileText ls) path).map (fun u => (u.uuid, u.references)) = some (uuid, names)) ∧
    ∀ content, ofSettings? content path = none ↔ ∀ uuid, LastValue content "uuid" uuid → uuid = "" := by
  have hvalue (key : String) : (parse (fileText ls)).get? key = last? (values ls) key := by
    rw [get?_parse, assigned_fileText h]
  refine ⟨hvalue, distinct_parse _, ?_, ?_⟩
  · intro uuid names huuid hne hnames hlisted
    rw [ofSettings?_eq, hvalue, hvalue, huuid, hnames]
    simp [hne, namesIn_intercalate hlisted]
  · intro content
    simp only [ofSettings?_eq_none_iff, get?_parse_eq_some_iff]

/-- An identifier that is set twice, a value with quotes and commas of its own, and a name that is
listed twice. -/
def sampleLines : List Line :=
  [.setting "uuid" "" true, .other "not a setting", .setting "title" "say \"a\", or b\\\"," true,
    .setting "modulesNames" "shared,quo\"te,shared" false, .setting "uuid" "7c1b" true]

theorem sampleLines_read_back :
    (parse (fileText sampleLines)).get? "title" = some "say \"a\", or b\\\"," ∧
    (ofSettings? (fileText sampleLines) "/work/crm/unit.obj").map (fun u => (u.uuid, u.references)) =
      some ("7c1b", ["shared", "quo\"te", "shared"]) := by
  have hproper : ∀ l ∈ sampleLines, l.Proper := by decide
  obtain ⟨hvalue, -, hunit, -⟩ := written_settings_read_back sampleLines hproper "/work/crm/unit.obj"
  exact ⟨hvalue "title", hunit "7c1b" ["shared", "quo\"te", "shared"] rfl (by decide) rfl (by decide)⟩

end ProjectUnit

end ScriptAtlas
