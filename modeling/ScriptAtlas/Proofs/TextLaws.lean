/-
Laws of the small operations that readers are made of: a run of characters and
where it stops, what stands at the two ends of a text, pieces between
separators, and lines. The round trips of settings and of doc comments are put
together from these.
-/
import Mathlib.Data.List.Induction
import Mathlib.Data.List.TakeWhile
import ScriptAtlas.Text.Blank

namespace ScriptAtlas.Text

variable {c sep : Char} {s t b : List Char}

/-! ## Runs -/

section

variable {p : Char → Bool}

theorem stops_at {x : Char} (h : p x = false) : ∀ c ∈ (x :: s).head?, p c = false := by
  intro c hc
  rwa [← Option.some.inj hc]

theorem takeWhile_eq_nil (hs : ∀ c ∈ s.head?, p c = false) : s.takeWhile p = [] := by
  cases s with
  | nil => rfl
  | cons c s => simp [hs c rfl]

theorem dropWhile_eq_self (hs : ∀ c ∈ s.head?, p c = false) : s.dropWhile p = s := by
  cases s with
  | nil => rfl
  | cons c s => simp [hs c rfl]

/-- A run ends where the next character is none of its kind. -/
theorem takeWhile_run (ht : ∀ c ∈ t, p c = true) (hs : ∀ c ∈ s.head?, p c = false) :
    (t ++ s).takeWhile p = t := by
  rw [List.takeWhile_append_of_pos ht, takeWhile_eq_nil hs, List.append_nil]

theorem dropWhile_run (ht : ∀ c ∈ t, p c = true) (hs : ∀ c ∈ s.head?, p c = false) :
    (t ++ s).dropWhile p = s := by
  rw [List.dropWhile_append_of_pos ht, dropWhile_eq_self hs]

theorem mem_of_mem_head?_append_cons {x : Char} (h : c ∈ (t ++ x :: s).head?) : c ∈ t ∨ c = x := by
  cases t with
  | nil => exact .inr (Option.some.inj h).symm
  | cons d t => exact .inl (by simp_all)

theorem head?_dropWhile (s : List Char) : ∀ c ∈ (s.dropWhile p).head?, p c = false := by
  intro c hc
  have h := List.head?_dropWhile_not p s
  rw [Option.mem_def.1 hc] at h
  exact h

end

/-! ## The ends of a text -/

theorem forall_getLast?_append {p : Char → Prop} (hs : ∀ c ∈ s.getLast?, p c)
    (ht : ∀ c ∈ t.getLast?, p c) : ∀ c ∈ (s ++ t).getLast?, p c := by
  intro c hc
  rw [List.getLast?_append] at hc
  cases h : t.getLast? with
  | none => exact hs c (by simpa [h] using hc)
  | some d => exact ht c (by simpa [h] using hc)

theorem forall_head?_append {p : Char → Prop} (hs : ∀ c ∈ s.head?, p c)
    (ht : ∀ c ∈ t.head?, p c) : ∀ c ∈ (s ++ t).head?, p c := by
  cases s with
  | nil => exact ht
  | cons d s => exact hs

theorem dropLead?_eq_some_iff : dropLead? t s = some b ↔ s = t ++ b := by
  unfold dropLead?
  constructor
  · intro h
    obtain ⟨hlead, h⟩ := Option.ite_none_right_eq_some.1 h
    rw [← Option.some.inj h]
    exact (List.prefix_iff_eq_append.1 (List.isPrefixOf_iff_prefix.1 hlead)).symm
  · rintro rfl
    simp

theorem dropTail?_eq_some_iff : dropTail? t s = some b ↔ s = b ++ t := by
  unfold dropTail?
  constructor
  · intro h
    obtain ⟨htail, h⟩ := Option.ite_none_right_eq_some.1 h
    rw [← Option.some.inj h]
    exact (List.suffix_iff_eq_append.1 (List.isSuffixOf_iff_suffix.1 htail)).symm
  · rintro rfl
    simp

theorem dropLead?_append (t s : List Char) : dropLead? t (t ++ s) = some s :=
  dropLead?_eq_some_iff.2 rfl

theorem dropTail?_append (t s : List Char) : dropTail? t (s ++ t) = some s :=
  dropTail?_eq_some_iff.2 rfl

theorem dropLead?_eq_none_iff : dropLead? t s = none ↔ ¬ t <+: s := by
  simp [dropLead?]

/-- Neither end of the text is blank. -/
structure Trimmed (s : List Char) : Prop where
  head : ∀ c ∈ s.head?, isBlank c = false
  last : ∀ c ∈ s.getLast?, isBlank c = false

theorem Trimmed.append (hs : Trimmed s) (ht : Trimmed t) : Trimmed (s ++ t) :=
  ⟨forall_head?_append hs.head ht.head, forall_getLast?_append hs.last ht.last⟩

theorem trimStart_eq_self (h : ∀ c ∈ s.head?, isBlank c = false) : trimStart s = s :=
  dropWhile_eq_self h

theorem trimEnd_eq_self (h : ∀ c ∈ s.getLast?, isBlank c = false) : trimEnd s = s := by
  rw [trimEnd, dropWhile_eq_self (by simpa using h), List.reverse_reverse]

theorem head?_trimStart (s : List Char) : ∀ c ∈ (trimStart s).head?, isBlank c = false :=
  head?_dropWhile s

theorem getLast?_trimEnd (s : List Char) : ∀ c ∈ (trimEnd s).getLast?, isBlank c = false := by
  rw [trimEnd, List.getLast?_reverse]
  exact head?_dropWhile s.reverse

theorem Trimmed.trim_eq (h : Trimmed s) : trim s = s := by
  rw [trim, trimStart_eq_self h.head, trimEnd_eq_self h.last]

theorem trim_eq_self_iff : trim s = s ↔ Trimmed s := by
  refine ⟨fun h => ⟨?_, ?_⟩, Trimmed.trim_eq⟩
  · intro c hc
    -- trimming the end leaves the first character where it is
    obtain ⟨r, hr⟩ : trimEnd (trimStart s) <+: trimStart s := by
      have hsuffix := List.dropWhile_suffix (l := (trimStart s).reverse) isBlank
      simpa [trimEnd] using List.reverse_prefix.2 hsuffix
    apply head?_trimStart s c
    rw [← hr, ← trim, h, List.head?_append, Option.mem_def.1 hc]
    rfl
  · rw [← h]
    exact getLast?_trimEnd (trimStart s)

instance (s : List Char) : Decidable (Trimmed s) := decidable_of_iff _ trim_eq_self_iff

theorem trimStart_append (hb : ∀ c ∈ b, isBlank c = true) : trimStart (b ++ s) = trimStart s :=
  List.dropWhile_append_of_pos hb

theorem trimEnd_append (hb : ∀ c ∈ b, isBlank c = true) : trimEnd (s ++ b) = trimEnd s := by
  rw [trimEnd, trimEnd, List.reverse_append, List.dropWhile_append_of_pos (by simpa using hb)]

theorem trim_append_left (hb : ∀ c ∈ b, isBlank c = true) : trim (b ++ s) = trim s := by
  rw [trim, trim, trimStart_append hb]

theorem trimStart_of_blank (hb : ∀ c ∈ b, isBlank c = true) : trimStart b = [] := by
  simpa [trimStart] using hb

theorem trim_append_right (hb : ∀ c ∈ b, isBlank c = true) : trim (s ++ b) = trim s := by
  by_cases hs : trimStart s = []
  · have hblank : ∀ c ∈ s, isBlank c = true := by simpa [trimStart] using hs
    rw [trim, trim, trimStart_append hblank, hs, trimStart_of_blank hb]
  · have hmore : trimStart (s ++ b) = trimStart s ++ b := by
      have hne : (s.dropWhile isBlank).isEmpty = false := by simpa [trimStart] using hs
      rw [trimStart, List.dropWhile_append, hne]
      rfl
    rw [trim, trim, hmore, trimEnd_append hb]

/-! ## Pieces -/

theorem splitAtChar_eq_splitOn (sep : Char) (s : List Char) : splitAtChar sep s = s.splitOn sep := by
  induction s with
  | nil => rfl
  | cons c s ih =>
    rw [splitAtChar, List.splitOn_cons_eq_if_modifyHead, ih]
    by_cases h : c = sep
    · simp [h]
    · have hne : s.splitOn sep ≠ [] := List.splitOn_ne_nil sep s
      obtain ⟨p, ps, hp⟩ := List.exists_cons_of_ne_nil hne
      simp [h, hp]

theorem splitAtChar_append (sep : Char) (s t : List Char) :
    splitAtChar sep (s ++ sep :: t) = splitAtChar sep s ++ splitAtChar sep t := by
  simp only [splitAtChar_eq_splitOn, List.splitOn_append_cons_self]

theorem splitAtChar_of_not_mem (h : sep ∉ s) : splitAtChar sep s = [s] := by
  rw [splitAtChar_eq_splitOn, List.splitOn_eq_singleton h]

theorem splitAtChar_ne_nil (sep : Char) (s : List Char) : splitAtChar sep s ≠ [] := by
  rw [splitAtChar_eq_splitOn]
  exact List.splitOn_ne_nil sep s

theorem splitAtChar_joinWith {ls : List (List Char)} (h : ∀ l ∈ ls, sep ∉ l) (hne : ls ≠ []) :
    splitAtChar sep (joinWith [sep] ls) = ls := by
  rw [splitAtChar_eq_splitOn, joinWith, List.splitOn_intercalate sep h hne]

theorem joinWith_splitAtChar (sep : Char) (s : List Char) : joinWith [sep] (splitAtChar sep s) = s := by
  rw [splitAtChar_eq_splitOn, joinWith, List.intercalate_splitOn]

theorem not_mem_of_mem_splitAtChar {l : List Char} (h : l ∈ splitAtChar sep s) : sep ∉ l := by
  induction s generalizing l with
  | nil => simp_all [splitAtChar]
  | cons c s ih =>
    obtain ⟨p, ps, hp⟩ := List.exists_cons_of_ne_nil (splitAtChar_ne_nil sep s)
    rw [splitAtChar, hp] at h
    by_cases hc : c = sep
    · rw [if_pos hc] at h
      rcases List.mem_cons.1 h with rfl | h
      · exact List.not_mem_nil
      · exact ih (hp ▸ h)
    · rw [if_neg hc] at h
      rcases List.mem_cons.1 h with rfl | h
      · have hsep : sep ∉ p := ih (hp ▸ List.mem_cons_self)
        simpa [hsep] using Ne.symm hc
      · exact ih (hp ▸ List.mem_cons_of_mem p h)

theorem joinWith_cons (lead l : List Char) {ls : List (List Char)} (h : ls ≠ []) :
    joinWith lead (l :: ls) = l ++ lead ++ joinWith lead ls :=
  List.intercalate_cons_of_ne_nil h

@[simp] theorem joinWith_singleton (lead l : List Char) : joinWith lead [l] = l :=
  List.intercalate_singleton

@[simp] theorem joinWith_nil (lead : List Char) : joinWith lead [] = [] := rfl

theorem joinWith_concat (lead l : List Char) {ls : List (List Char)} (h : ls ≠ []) :
    joinWith lead (ls ++ [l]) = joinWith lead ls ++ lead ++ l := by
  induction ls with
  | nil => exact absurd rfl h
  | cons m ls ih =>
    by_cases hls : ls = []
    · rw [hls, List.singleton_append, joinWith_cons _ _ (by simp), joinWith_singleton, joinWith_singleton]
    · rw [List.cons_append, joinWith_cons _ _ (by simp), ih hls, joinWith_cons _ _ hls]
      simp

theorem head?_joinWith (lead : List Char) {l : List Char} (ls : List (List Char)) (h : l ≠ []) :
    (joinWith lead (l :: ls)).head? = l.head? := by
  obtain ⟨c, l, rfl⟩ := List.exists_cons_of_ne_nil h
  cases ls with
  | nil => simp
  | cons m ls => simp [joinWith_cons]

theorem getLast?_joinWith (lead : List Char) {l : List Char} (ls : List (List Char)) (h : l ≠ []) :
    (joinWith lead (ls ++ [l])).getLast? = l.getLast? := by
  by_cases hls : ls = []
  · simp [hls]
  · obtain ⟨c, hc⟩ := Option.ne_none_iff_exists'.1 (fun hn => h (List.getLast?_eq_none_iff.1 hn))
    rw [joinWith_concat _ _ hls, List.getLast?_append, hc]
    rfl

theorem trimmed_joinWith (lead : List Char) {ls : List (List Char)} (h : ∀ l ∈ ls, Trimmed l)
    (hfirst : ∀ l ∈ ls.head?, l ≠ []) (hlast : ∀ l ∈ ls.getLast?, l ≠ []) :
    Trimmed (joinWith lead ls) := by
  constructor
  · cases ls with
    | nil => exact nofun
    | cons l ls =>
      rw [head?_joinWith _ _ (hfirst l rfl)]
      exact (h l List.mem_cons_self).head
  · cases hl : ls.getLast? with
    | none =>
      obtain rfl := List.getLast?_eq_none_iff.1 hl
      exact nofun
    | some l =>
      obtain ⟨ls, rfl⟩ := List.getLast?_eq_some_iff.1 hl
      rw [getLast?_joinWith _ _ (hlast l hl)]
      exact (h l (by simp)).last

/-! ## Lines -/

theorem trim_lineBody (l : List Char) : trim (lineBody l) = trim l := by
  unfold lineBody
  split
  · rename_i h
    obtain ⟨m, rfl⟩ := List.getLast?_eq_some_iff.1 h
    rw [List.dropLast_concat, trim_append_right (List.forall_mem_singleton.2 rfl)]
  · rfl

theorem lineBody_eq_self {l : List Char} (h : l.getLast? ≠ some '\r') : lineBody l = l := if_neg h

theorem linesFrom_append {l : List Char} (h : '\n' ∉ l) (acc rest : List Char) :
    linesFrom acc (l ++ rest) = linesFrom (l.reverse ++ acc) rest := by
  induction l generalizing acc with
  | nil => rfl
  | cons c l ih =>
    rw [List.mem_cons, not_or] at h
    rw [List.cons_append, linesFrom, if_neg (Ne.symm h.1), ih h.2]
    simp

/-- Lines with line feeds between them. Only the last one has no ending, and it is no line if it is
empty. -/
theorem lines_joinWith {ls : List (List Char)} {last : List Char} (h : ∀ l ∈ ls, '\n' ∉ l)
    (hlast : '\n' ∉ last) : lines (joinWith ['\n'] (ls ++ [last])) =
      ls.map lineBody ++ if last.isEmpty then [] else [last] := by
  induction ls with
  | nil =>
    have hline := linesFrom_append hlast [] []
    rw [List.append_nil] at hline
    simp [lines, hline, linesFrom]
  | cons l ls ih =>
    rw [List.cons_append, joinWith_cons _ _ (by simp), List.append_assoc, lines,
      linesFrom_append (h l List.mem_cons_self)]
    have hrest := ih fun m hm => h m (List.mem_cons_of_mem l hm)
    rw [lines] at hrest
    simp [linesFrom, hrest]

theorem trim_joinWith_cons_nil (ls : List (List Char)) :
    trim (joinWith ['\n'] ([] :: ls)) = trim (joinWith ['\n'] ls) := by
  by_cases hls : ls = []
  · simp [hls]
  · rw [joinWith_cons _ _ hls, List.nil_append, trim_append_left (List.forall_mem_singleton.2 rfl)]

/-- Empty lines behind a text are trimmed away. -/
theorem trim_joinWith_append_blank (ls : List (List Char)) {blank : List (List Char)}
    (h : ∀ l ∈ blank, l = []) : trim (joinWith ['\n'] (ls ++ blank)) = trim (joinWith ['\n'] ls) := by
  induction blank generalizing ls with
  | nil => rw [List.append_nil]
  | cons l blank ih =>
    obtain ⟨rfl, hblank⟩ := List.forall_mem_cons.1 h
    rw [List.append_cons, ih (ls ++ [[]]) hblank]
    by_cases hls : ls = []
    · simp [hls]
    · rw [joinWith_concat _ _ hls, List.append_nil, trim_append_right (List.forall_mem_singleton.2 rfl)]

end ScriptAtlas.Text
