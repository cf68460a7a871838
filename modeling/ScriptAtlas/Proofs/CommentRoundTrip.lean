/-
What is written into a doc comment is what is read from it. `WrittenTag` and
`WrittenComment` hold the pieces of a comment before they are put together, and
`IsBlock` is the block comment around its lines: each stands behind a star of its
own, and blanks are free around the star.

A tag comes back since each of its pieces ends where the next one starts: the
title at a blank, the type at the brace that closes its own, the name at a blank
or a square bracket. A comment comes back since only tags start with an at sign.
-/
import ScriptAtlas.DocComment
import ScriptAtlas.Proofs.TextLaws

namespace ScriptAtlas

open Text

/-! ## Brackets -/

/-- Every bracket in the text is closed, and none is closed that was not opened. -/
inductive Balanced (open_ close : Char) : List Char → Prop
  | nil : Balanced open_ close []
  | other {c : Char} {s : List Char} (hopen : c ≠ open_) (hclose : c ≠ close)
    (hs : Balanced open_ close s) : Balanced open_ close (c :: s)
  | group {s t : List Char} (hs : Balanced open_ close s) (ht : Balanced open_ close t) :
    Balanced open_ close (open_ :: (s ++ close :: t))

section

variable {open_ close : Char} {s : List Char}

theorem balanced_of_not_mem (hopen : open_ ∉ s) (hclose : close ∉ s) : Balanced open_ close s := by
  induction s with
  | nil => exact .nil
  | cons c s ih =>
    rw [List.mem_cons, not_or] at hopen hclose
    exact .other (Ne.symm hopen.1) (Ne.symm hclose.1) (ih hopen.2 hclose.2)

/-- The bracket that closes is looked for behind a balanced text. -/
theorem Balanced.splitClosing_append (h : Balanced open_ close s) (hne : open_ ≠ close) {depth : Nat}
    (hdepth : 1 ≤ depth) (rest : List Char) : DocTag.splitClosing open_ close depth (s ++ rest) =
      (DocTag.splitClosing open_ close depth rest).map fun p => (s ++ p.1, p.2) := by
  induction h generalizing depth rest with
  | nil => simp
  | other hopen hclose _ ih =>
    rw [List.cons_append, DocTag.splitClosing, if_neg hopen, if_neg hclose, ih hdepth, Option.map_map]
    rfl
  | @group s t _ _ ihs iht =>
    have hdeep : ¬ depth + 1 ≤ 1 := by omega
    rw [List.cons_append, List.append_assoc, DocTag.splitClosing, if_pos rfl, ihs (by omega),
      List.cons_append, DocTag.splitClosing, if_neg hne.symm, if_pos rfl, if_neg hdeep,
      Nat.add_sub_cancel, iht hdepth]
    simp [Option.map_map, Function.comp_def]

theorem Balanced.splitClosing_close (h : Balanced open_ close s) (hne : open_ ≠ close)
    (after : List Char) : DocTag.splitClosing open_ close 1 (s ++ close :: after) = some (s, after) := by
  rw [h.splitClosing_append hne (Nat.le_refl 1), DocTag.splitClosing, if_neg hne.symm, if_pos rfl,
    if_pos (Nat.le_refl 1)]
  simp

end

/-! ## Pieces of a line -/

/-- The text behind a space. An empty text takes none. -/
def spaced : List Char → List Char
  | [] => []
  | c :: s => ' ' :: c :: s

section

variable {s : List Char}

@[simp] theorem spaced_nil : spaced [] = [] := rfl

theorem head?_spaced (s : List Char) : ∀ c ∈ (spaced s).head?, c = ' ' := by
  cases s with
  | nil => exact nofun
  | cons c s => exact fun c hc => (Option.some.inj hc).symm

theorem head?_spaced_append {s' : List Char} (hs : ∀ c ∈ s'.head?, c = ' ') :
    ∀ c ∈ (spaced s ++ s').head?, c = ' ' := by
  cases s with
  | nil => exact hs
  | cons c s => exact head?_spaced (c :: s)

theorem trimStart_spaced (h : ∀ c ∈ s.head?, isBlank c = false) (hne : s ≠ []) (rest : List Char) :
    trimStart (spaced s ++ rest) = s ++ rest := by
  obtain ⟨c, s, rfl⟩ := List.exists_cons_of_ne_nil hne
  exact trimStart_eq_self (s := c :: s ++ rest) h

theorem trimStart_spaced_self (h : ∀ c ∈ s.head?, isBlank c = false) : trimStart (spaced s) = s := by
  cases s with
  | nil => rfl
  | cons c s => simpa using trimStart_spaced h (by simp) []

theorem spaced_append (hne : s ≠ []) (rest : List Char) : spaced (s ++ rest) = spaced s ++ rest := by
  obtain ⟨c, s, rfl⟩ := List.exists_cons_of_ne_nil hne
  rfl

end

/-- The text may stand at the end of a trimmed line. -/
structure IsLineEnd (s : List Char) : Prop where
  last : ∀ c ∈ s.getLast?, isBlank c = false
  oneLine : '\n' ∉ s

section

variable {s s' : List Char}

theorem isLineEnd_of_not_blank (h : ∀ c ∈ s, isBlank c = false) : IsLineEnd s where
  last c hc := h c (List.mem_of_getLast? hc)
  oneLine hc := absurd (h _ hc) (by decide)

theorem isLineEnd_concat {c : Char} (h : '\n' ∉ s) (hc : isBlank c = false) : IsLineEnd (s ++ [c]) := by
  have hline : '\n' ≠ c := by
    rintro rfl
    cases hc
  refine ⟨fun d hd => ?_, by simp [h, hline]⟩
  rw [List.getLast?_concat] at hd
  exact Option.some.inj hd ▸ hc

theorem IsLineEnd.append (h : IsLineEnd s) (h' : IsLineEnd s') : IsLineEnd (s ++ s') := by
  refine ⟨fun c hc => ?_, by simp [h.oneLine, h'.oneLine]⟩
  rw [List.getLast?_append] at hc
  cases hl : s'.getLast? with
  | none => exact h.last c (by simpa [hl] using hc)
  | some d => exact h'.last c (by simpa [hl] using hc)

theorem IsLineEnd.spaced (h : IsLineEnd s) : IsLineEnd (spaced s) := by
  cases s with
  | nil => exact h
  | cons c s => exact ⟨h.last, by simpa [ScriptAtlas.spaced] using h.oneLine⟩

end

/-! ## Tags -/

/-- A line of running text: trimmed, and no start of a tag. -/
structure IsTextLine (l : List Char) : Prop where
  trimmed : Trimmed l
  oneLine : '\n' ∉ l
  noTag : l.head? ≠ some '@'

instance (l : List Char) : Decidable (IsTextLine l) :=
  decidable_of_iff (Trimmed l ∧ '\n' ∉ l ∧ l.head? ≠ some '@')
    ⟨fun ⟨ht, hl, hn⟩ => ⟨ht, hl, hn⟩, fun ⟨ht, hl, hn⟩ => ⟨ht, hl, hn⟩⟩

/-- What may stand in the braces of a tag. -/
structure IsTypeText (s : List Char) : Prop where
  trimmed : Trimmed s
  oneLine : '\n' ∉ s
  balanced : Balanced '{' '}' s

/-- What a tag may name. -/
structure IsNameText (s : List Char) : Prop where
  ne_nil : s ≠ []
  noBrace : s.head? ≠ some '{'
  chars : ∀ c ∈ s, isBlank c = false ∧ c ≠ '[' ∧ c ≠ ']' ∧ c ≠ '='

theorem IsNameText.isLineEnd {s : List Char} (h : IsNameText s) : IsLineEnd s :=
  isLineEnd_of_not_blank fun c hc => (h.chars c hc).1

/-- The pieces of a tag. A name is marked if it is optional. -/
structure WrittenTag where
  title : List Char
  type : Option (List Char) := none
  name : Option (List Char × Bool) := none
  lines : List (List Char) := []

namespace WrittenTag

/-- The type in braces. -/
def typePiece (t : WrittenTag) : List Char :=
  match t.type with
  | some type => '{' :: (type ++ ['}'])
  | none => []

/-- The name, in square brackets if it is optional. -/
def namePiece (t : WrittenTag) : List Char :=
  match t.name with
  | some (name, true) => '[' :: (name ++ [']'])
  | some (name, false) => name
  | none => []

/-- The description, with its line feeds. -/
def description (t : WrittenTag) : List Char := joinWith ['\n'] t.lines

/-- What stands behind the title: the type, the name and a text. -/
def behindTitle (t : WrittenTag) (text : List Char) : List Char :=
  spaced t.typePiece ++ (spaced t.namePiece ++ spaced text)

/-- The lines of the tag. The first line of its description stands behind its pieces. -/
def text (t : WrittenTag) : List (List Char) :=
  ('@' :: (t.title ++ t.behindTitle (t.lines.headD []))) :: t.lines.tail

/-- The tag of these pieces. -/
def value (t : WrittenTag) : DocTag where
  title := String.ofList t.title
  typeExpr := t.type.map String.ofList
  name := t.name.map fun n => String.ofList n.1
  optional := t.name.any (·.2)
  description := String.ofList t.description

/-- The pieces can be told apart: the title is in lower case, the type is balanced, exactly the tags
that are about a name have one, and the description starts neither with a dash nor with what looks
like a missing piece. -/
structure Proper (t : WrittenTag) : Prop where
  lowerTitle : lower t.title = t.title
  titleChars : ∀ c ∈ t.title, isBlank c = false ∧ c ≠ '{'
  titleHead : t.title.head? ≠ some '@'
  types : ∀ s ∈ t.type, IsTypeText s
  typed : DocTag.typedTitles.contains (String.ofList t.title) = true → t.type.isSome = true
  named : t.name.isSome = DocTag.namedTitles.contains (String.ofList t.title)
  names : ∀ n ∈ t.name, IsNameText n.1
  lines : ∀ l ∈ t.lines, IsTextLine l ∧ l ≠ []
  noDash : ¬ ['-', ' '] <+: t.lines.headD []
  noBrace : t.type = none → t.name = none → (t.lines.headD []).head? ≠ some '{'

end WrittenTag

/-! ## Reading a tag -/

namespace DocTag

variable {name after : List Char}

theorem takeType_braced {type : List Char} (h : IsTypeText type) (after : List Char) :
    takeType ('{' :: (type ++ ['}']) ++ after) = (some type, trimStart after) := by
  have hsplit := h.balanced.splitClosing_close (by decide) after
  rw [List.cons_append, List.append_assoc, List.singleton_append, takeType, hsplit]
  simp only [h.trimmed.trim_eq]

theorem takeType_of_head {s : List Char} (h : s.head? ≠ some '{') : takeType s = (none, s) := by
  unfold takeType
  split
  · exact absurd rfl h
  · rfl

theorem takeName_bracketed (h : IsNameText name) (after : List Char) :
    takeName ('[' :: (name ++ [']']) ++ after) = (some name, true, trimStart after) := by
  have hb : Balanced '[' ']' name :=
    balanced_of_not_mem (fun hc => (h.chars _ hc).2.1 rfl) (fun hc => (h.chars _ hc).2.2.1 rfl)
  have hsplit := hb.splitClosing_close (by decide) after
  have hname : name.takeWhile (· != '=') = name := by
    rw [List.takeWhile_eq_self_iff]
    exact fun c hc => by simpa using (h.chars c hc).2.2.2
  have ht : Trimmed name := ⟨fun c hc => (h.chars c (List.mem_of_mem_head? hc)).1,
    fun c hc => (h.chars c (List.mem_of_getLast? hc)).1⟩
  rw [List.cons_append, List.append_assoc, List.singleton_append, takeName, hsplit]
  simp [hname, ht.trim_eq, h.ne_nil]

theorem takeName_plain (h : IsNameText name) (hafter : ∀ c ∈ after.head?, c = ' ') :
    takeName (name ++ after) = (some name, false, trimStart after) := by
  have hchars : ∀ c ∈ name, (!isBlank c) = true := fun c hc => by simp [(h.chars c hc).1]
  have hstop : ∀ c ∈ after.head?, (!isBlank c) = false := fun c hc => by rw [hafter c hc]; rfl
  have hword : takeWord (name ++ after) = (some name, trimStart after) := by
    simp [takeWord, takeWhile_run hchars hstop, dropWhile_run hchars hstop, h.ne_nil]
  unfold takeName
  split
  · rename_i s hs
    obtain ⟨c, name, rfl⟩ := List.exists_cons_of_ne_nil h.ne_nil
    exact absurd (List.cons.inj hs).1 (h.chars c List.mem_cons_self).2.1
  · rw [hword]

end DocTag

namespace WrittenTag

variable {t : WrittenTag}

theorem head?_behindTitle (t : WrittenTag) (text : List Char) :
    ∀ c ∈ (t.behindTitle text).head?, c = ' ' :=
  head?_spaced_append (head?_spaced_append (head?_spaced text))

theorem Proper.trimmed_description (h : t.Proper) : Trimmed t.description :=
  trimmed_joinWith _ (fun l hl => (h.lines l hl).1.trimmed)
    (fun l hl => (h.lines l (List.mem_of_mem_head? hl)).2)
    (fun l hl => (h.lines l (List.mem_of_getLast? hl)).2)

theorem Proper.head?_description (h : t.Proper) :
    t.description.head? = (t.lines.headD []).head? := by
  unfold description
  cases hl : t.lines with
  | nil => rfl
  | cons l ls => exact head?_joinWith _ _ (h.lines l (hl ▸ List.mem_cons_self)).2

/-- A dash that leads the description leads its first line. -/
theorem Proper.describe_description (h : t.Proper) :
    DocTag.describe t.description = String.ofList t.description := by
  have hdash : dropLead? ['-', ' '] t.description = none := by
    rw [dropLead?_eq_none_iff, description]
    intro hlead
    refine h.noDash ?_
    cases hl : t.lines with
    | nil => simp [hl] at hlead
    | cons l ls =>
      rw [hl] at hlead
      cases ls with
      | nil => simpa using hlead
      | cons m ls =>
        -- a line of one dash is followed by a line feed and not by a space
        rw [joinWith_cons _ _ (by simp), List.append_assoc] at hlead
        obtain _ | ⟨c, _ | ⟨d, l⟩⟩ := l
        · simp at hlead
        · simp at hlead
        · simpa using hlead
  rw [DocTag.describe, hdash, Option.getD_none, h.trimmed_description.trim_eq]

/-- The lines of the tag, with line feeds between them. -/
theorem Proper.joinWith_text (h : t.Proper) :
    joinWith ['\n'] t.text = '@' :: (t.title ++ t.behindTitle t.description) := by
  unfold text description
  cases hl : t.lines with
  | nil => simp
  | cons l ls =>
    have hne : l ≠ [] := (h.lines l (hl ▸ List.mem_cons_self)).2
    by_cases hls : ls = []
    · simp [hls]
    · rw [List.tail_cons, joinWith_cons _ _ hls, joinWith_cons _ _ hls]
      simp [behindTitle, spaced_append hne]

/-- A name is written, and what is written of it looks neither blank nor like a type. -/
theorem Proper.namePiece_eq_cons (h : t.Proper) {n : List Char × Bool} (hn : t.name = some n) :
    ∃ c s, t.namePiece = c :: s ∧ isBlank c = false ∧ c ≠ '{' := by
  have hname := h.names n hn
  obtain ⟨name, _ | _⟩ := n
  · obtain ⟨c, name, rfl⟩ := List.exists_cons_of_ne_nil hname.ne_nil
    exact ⟨c, name, by rw [namePiece, hn], (hname.chars c List.mem_cons_self).1,
      fun hc => hname.noBrace (congrArg some hc)⟩
  · exact ⟨'[', name ++ [']'], by rw [namePiece, hn], by decide, by decide⟩

theorem Proper.trimStart_namePiece (h : t.Proper) {n : List Char × Bool} (hn : t.name = some n)
    (rest : List Char) : trimStart (spaced t.namePiece ++ rest) = t.namePiece ++ rest := by
  obtain ⟨c, s, hpiece, hblank, -⟩ := h.namePiece_eq_cons hn
  rw [hpiece]
  exact trimStart_spaced (stops_at hblank) (by simp) rest

theorem Proper.trimStart_unnamed (h : t.Proper) (hn : t.name = none) :
    trimStart (spaced t.namePiece ++ spaced t.description) = t.description := by
  rw [namePiece, hn]
  exact trimStart_spaced_self h.trimmed_description.head

theorem Proper.takeType_behindTitle (h : t.Proper) :
    DocTag.takeType (trimStart (t.behindTitle t.description)) =
      (t.type, trimStart (spaced t.namePiece ++ spaced t.description)) := by
  cases htype : t.type with
  | some type =>
    have hpiece : t.typePiece = '{' :: (type ++ ['}']) := by rw [typePiece, htype]
    have hstart := trimStart_spaced (s := t.typePiece) (hpiece ▸ stops_at (by decide)) (by simp [hpiece])
    rw [behindTitle, hstart, hpiece]
    exact DocTag.takeType_braced (h.types type htype) _
  | none =>
    -- without a type the brace of one must not be what comes next
    have hpiece : t.typePiece = [] := by rw [typePiece, htype]
    rw [behindTitle, hpiece, spaced_nil, List.nil_append]
    refine DocTag.takeType_of_head ?_
    cases hname : t.name with
    | none =>
      rw [h.trimStart_unnamed hname, h.head?_description]
      exact h.noBrace htype hname
    | some n =>
      obtain ⟨c, s, hpiece, -, hbrace⟩ := h.namePiece_eq_cons hname
      rw [h.trimStart_namePiece hname, hpiece]
      exact fun hc => hbrace (Option.some.inj hc)

theorem Proper.takeName_namePiece (h : t.Proper) {n : List Char × Bool} (hn : t.name = some n) :
    DocTag.takeName (trimStart (spaced t.namePiece ++ spaced t.description)) =
      (some n.1, n.2, t.description) := by
  have hname := h.names n hn
  rw [h.trimStart_namePiece hn]
  obtain ⟨name, _ | _⟩ := n
  · rw [namePiece, hn, DocTag.takeName_plain hname (head?_spaced _),
      trimStart_spaced_self h.trimmed_description.head]
  · rw [namePiece, hn, DocTag.takeName_bracketed hname,
      trimStart_spaced_self h.trimmed_description.head]

/-- No more than the one at sign stands before the title. -/
theorem Proper.dropWhile_at (h : t.Proper) (text : List Char) :
    ('@' :: (t.title ++ t.behindTitle text)).dropWhile (· == '@') = t.title ++ t.behindTitle text := by
  rw [List.dropWhile_cons_of_pos rfl]
  refine dropWhile_eq_self fun c hc => ?_
  rw [List.head?_append] at hc
  cases htitle : t.title.head? with
  | none =>
    rw [htitle] at hc
    rw [head?_behindTitle t text c hc]
    rfl
  | some d =>
    rw [htitle] at hc
    rw [← Option.some.inj hc]
    simpa [htitle] using h.titleHead

/-- Each piece of a tag is read back. -/
theorem Proper.parse_text (h : t.Proper) : DocTag.parse (joinWith ['\n'] t.text) = t.value := by
  have hchars : ∀ c ∈ t.title, (!(isBlank c || c == '{')) = true := by
    intro c hc
    simp [h.titleChars c hc]
  have hstop : ∀ c ∈ (t.behindTitle t.description).head?, (!(isBlank c || c == '{')) = false := by
    intro c hc
    rw [head?_behindTitle _ _ c hc]
    rfl
  rw [h.joinWith_text]
  simp only [DocTag.parse, h.dropWhile_at, takeWhile_run hchars hstop, dropWhile_run hchars hstop,
    h.lowerTitle, h.takeType_behindTitle, ← h.named]
  cases hn : t.name with
  | none =>
    have htyped : (t.type.isNone && DocTag.typedTitles.contains (String.ofList t.title)) = false := by
      cases htype : t.type with
      | none => simpa [htype] using h.typed
      | some type => rfl
    rw [h.trimStart_unnamed hn, htyped, h.describe_description]
    simp [value, hn]
  | some n =>
    simp [h.takeName_namePiece hn, h.describe_description, value, hn]

/-! ## The lines of a tag -/

theorem Proper.isLineEnd_title (h : t.Proper) : IsLineEnd ('@' :: t.title) := by
  refine isLineEnd_of_not_blank (List.forall_mem_cons.2 ⟨by decide, ?_⟩)
  exact fun c hc => (h.titleChars c hc).1

theorem Proper.isLineEnd_typePiece (h : t.Proper) : IsLineEnd t.typePiece := by
  unfold typePiece
  split
  · rename_i type htype
    have hline := (h.types type htype).oneLine
    exact isLineEnd_concat (s := '{' :: type) (by simp [hline]) (by decide)
  · exact isLineEnd_of_not_blank nofun

theorem Proper.isLineEnd_namePiece (h : t.Proper) : IsLineEnd t.namePiece := by
  unfold namePiece
  split
  · rename_i name hname
    have hline := (h.names _ hname).isLineEnd.oneLine
    exact isLineEnd_concat (s := '[' :: name) (by simp [hline]) (by decide)
  · rename_i name hname
    exact (h.names _ hname).isLineEnd
  · exact isLineEnd_of_not_blank nofun

theorem Proper.isLineEnd_headD (h : t.Proper) : IsLineEnd (t.lines.headD []) := by
  cases hl : t.lines with
  | nil => exact isLineEnd_of_not_blank nofun
  | cons l ls =>
    have hline := (h.lines l (hl ▸ List.mem_cons_self)).1
    exact ⟨hline.trimmed.last, hline.oneLine⟩

theorem Proper.trimmed_text (h : t.Proper) : ∀ l ∈ t.text, Trimmed l ∧ '\n' ∉ l := by
  intro l hl
  rcases List.mem_cons.1 hl with rfl | hl
  · have hend : IsLineEnd ('@' :: t.title ++ t.behindTitle (t.lines.headD [])) :=
      h.isLineEnd_title.append (h.isLineEnd_typePiece.spaced.append
        (h.isLineEnd_namePiece.spaced.append h.isLineEnd_headD.spaced))
    exact ⟨⟨stops_at (by decide), hend.last⟩, hend.oneLine⟩
  · have hline := (h.lines l (List.mem_of_mem_tail hl)).1
    exact ⟨hline.trimmed, hline.oneLine⟩

end WrittenTag

/-! ## Comments -/

/-- The description and the tags of a comment. -/
structure WrittenComment where
  description : List (List Char) := []
  tags : List WrittenTag := []

namespace WrittenComment

/-- The lines of the comment. -/
def contents (w : WrittenComment) : List (List Char) :=
  w.description ++ w.tags.flatMap WrittenTag.text

/-- The comment of these pieces. -/
def value (w : WrittenComment) : DocComment where
  description := String.ofList (joinWith ['\n'] w.description)
  tags := w.tags.map WrittenTag.value

/-- The description has no empty lines around it. -/
structure Proper (w : WrittenComment) : Prop where
  lines : ∀ l ∈ w.description, IsTextLine l
  first : ∀ l ∈ w.description.head?, l ≠ []
  last : ∀ l ∈ w.description.getLast?, l ≠ []
  tags : ∀ t ∈ w.tags, t.Proper

end WrittenComment

/-- Spaces and tabs. -/
def IsIndent (s : List Char) : Prop := ∀ c ∈ s, c = ' ' ∨ c = '\t'

instance (s : List Char) : Decidable (IsIndent s) := List.decidableBAll _ s

/-- A line with its content behind a star. -/
inductive Guttered : List Char → List Char → Prop
  | star (lead gap content : List Char) (hlead : IsIndent lead) (hgap : IsIndent gap) :
    Guttered (lead ++ '*' :: (gap ++ content)) content

/-- The text is a block comment with these contents, each on a line of its own. -/
def IsBlock (raw : String) (contents : List (List Char)) : Prop :=
  ∃ ls last, List.Forall₂ Guttered ls contents ∧ IsIndent last ∧
    raw.toList = ['/', '*', '*'] ++ joinWith ['\n'] ([] :: ls ++ [last]) ++ ['*', '/']

theorem IsIndent.isBlank {s : List Char} (h : IsIndent s) : ∀ c ∈ s, isBlank c = true := by
  intro c hc
  rcases h c hc with rfl | rfl <;> rfl

theorem IsIndent.oneLine {s : List Char} (h : IsIndent s) : '\n' ∉ s := by
  intro hc
  rcases h _ hc with hc | hc <;> cases hc

namespace DocComment

/-- It does not matter that at most one space behind the star belongs to the gutter. -/
theorem trim_dropGutter {lead : List Char} (h : IsIndent lead) (rest : List Char) :
    trim (dropGutter (lead ++ '*' :: rest)) = trim rest := by
  have hstart : trimStart (lead ++ '*' :: rest) = ['*'] ++ rest := by
    rw [trimStart_append h.isBlank]
    exact trimStart_eq_self (stops_at (by decide))
  rw [dropGutter, hstart, dropLead?_append, Option.getD_some]
  cases hspace : dropLead? [' '] rest with
  | none => rfl
  | some s =>
    rw [dropLead?_eq_some_iff.1 hspace, trim_append_left (List.forall_mem_singleton.2 rfl)]
    rfl

theorem dropGutter_of_indent {s : List Char} (h : IsIndent s) : dropGutter s = [] := by
  rw [dropGutter, trimStart_of_blank h.isBlank]
  rfl

theorem trim_of_guttered {line content : List Char} (h : Guttered line content) (ht : Trimmed content) :
    trim (dropGutter (lineBody line)) = content := by
  obtain ⟨lead, gap, content, hlead, hgap⟩ := h
  -- the line ends as the content does, or in the gutter, and so in no carriage return
  have hline : (lead ++ '*' :: (gap ++ content)).getLast? ≠ some '\r' := by
    rw [← List.cons_append, ← List.append_assoc, List.getLast?_append, ne_eq, Option.or_eq_some_iff]
    rintro (hlast | ⟨-, hlast⟩)
    · exact absurd (ht.last _ hlast) (by decide)
    · rcases List.mem_append.1 (List.mem_of_getLast? hlast) with hmem | hmem
      · exact absurd (hlead _ hmem) (by decide)
      · rcases List.mem_cons.1 hmem with hstar | hmem
        · cases hstar
        · exact absurd (hgap _ hmem) (by decide)
  rw [lineBody_eq_self hline, trim_dropGutter hlead, trim_append_left hgap.isBlank, ht.trim_eq]

theorem oneLine_of_guttered {line content : List Char} (h : Guttered line content)
    (hc : '\n' ∉ content) : '\n' ∉ line := by
  obtain ⟨lead, gap, content, hlead, hgap⟩ := h
  simp [hlead.oneLine, hgap.oneLine, hc]

theorem map_trim_of_guttered {ls contents : List (List Char)} (h : List.Forall₂ Guttered ls contents)
    (hcontents : ∀ l ∈ contents, Trimmed l ∧ '\n' ∉ l) : (∀ l ∈ ls, '\n' ∉ l) ∧
      ls.map (fun l => trim (dropGutter (lineBody l))) = contents := by
  induction h with
  | nil => exact ⟨nofun, rfl⟩
  | cons hl _ ih =>
    obtain ⟨⟨htrim, hline⟩, hrest⟩ := List.forall_mem_cons.1 hcontents
    obtain ⟨hlines, hmap⟩ := ih hrest
    exact ⟨List.forall_mem_cons.2 ⟨oneLine_of_guttered hl hline, hlines⟩,
      by rw [List.map_cons, trim_of_guttered hl htrim, hmap]⟩

theorem body_of_block (block : List Char) :
    body (['/', '*', '*'] ++ '\n' :: block ++ ['*', '/']) = (lines ('\n' :: block)).map dropGutter := by
  have htrim : Trimmed (['/', '*', '*'] ++ '\n' :: block ++ ['*', '/']) := by
    refine ⟨stops_at (by decide), fun c hc => ?_⟩
    rw [List.getLast?_append] at hc
    exact Option.some.inj hc ▸ rfl
  have hlead : ['/', '*', '*'] ++ '\n' :: block ++ ['*', '/'] =
      ['/', '*'] ++ ('*' :: '\n' :: block ++ ['*', '/']) := by simp
  rw [body, htrim.trim_eq, hlead, dropLead?_append]
  have hstars : ('*' :: '\n' :: block ++ ['*', '/']).dropWhile (· == '*') =
      '\n' :: block ++ ['*', '/'] := rfl
  simp only [hstars, dropTail?_append, Option.getD_some]

/-- The contents of a block are its lines but the first and the last. -/
theorem map_trim_body {raw : String} {contents : List (List Char)} (h : IsBlock raw contents)
    (hcontents : ∀ l ∈ contents, Trimmed l ∧ '\n' ∉ l) :
    ∃ blank, (∀ l ∈ blank, l = []) ∧ (body raw.toList).map trim = [] :: (contents ++ blank) := by
  obtain ⟨ls, last, hls, hlast, hraw⟩ := h
  obtain ⟨hlines, hmap⟩ := map_trim_of_guttered hls hcontents
  have hjoin : joinWith ['\n'] ([] :: ls ++ [last]) = '\n' :: joinWith ['\n'] (ls ++ [last]) := by
    rw [List.cons_append, joinWith_cons _ _ (by simp)]
    rfl
  have hbody : body raw.toList = (lines (joinWith ['\n'] ([] :: ls ++ [last]))).map dropGutter := by
    rw [hraw, hjoin, body_of_block]
  rw [hbody, lines_joinWith (List.forall_mem_cons.2 ⟨List.not_mem_nil, hlines⟩) hlast.oneLine]
  refine ⟨if last.isEmpty then [] else [[]], ?_, ?_⟩
  · split <;> simp
  · have hend : ((if last.isEmpty then [] else [last]).map dropGutter).map trim =
        if last.isEmpty then [] else [[]] := by
      split
      · rfl
      · rw [List.map_singleton, dropGutter_of_indent hlast]
        rfl
    have hrest : ((([] :: ls).map lineBody).map dropGutter).map trim = [] :: contents := by
      rw [List.map_map, List.map_map, ← hmap]
      rfl
    rw [List.map_append, List.map_append, hend, hrest, List.cons_append]

/-! ## Where the tags start -/

theorem not_startsTag {l : List Char} (h : l.head? ≠ some '@') : (!startsTag l) = true := by
  simpa [startsTag] using h

/-- What stands before the first tag is the end of the block. -/
theorem takeWhile_tags (tags : List WrittenTag) {blank : List (List Char)} (h : ∀ l ∈ blank, l = []) :
    ∀ l ∈ (tags.flatMap WrittenTag.text ++ blank).takeWhile (!startsTag ·), l = [] := by
  cases tags with
  | nil => exact fun l hl => h l (List.takeWhile_sublist _ |>.mem hl)
  | cons t tags => exact nofun

/-- Each tag takes the lines up to the next one. -/
theorem tagTexts_tags {tags : List WrittenTag} (ht : ∀ t ∈ tags, t.Proper) {blank : List (List Char)}
    (h : ∀ l ∈ blank, l = []) :
    tagTexts ((tags.flatMap WrittenTag.text ++ blank).dropWhile (!startsTag ·)) =
      tags.map fun t => joinWith ['\n'] t.text := by
  induction tags with
  | nil =>
    have hnone : blank.dropWhile (!startsTag ·) = [] := by
      rw [List.dropWhile_eq_nil_iff]
      exact fun l hl => not_startsTag (by simp [h l hl])
    rw [List.flatMap_nil, List.nil_append, hnone, tagTexts]
    rfl
  | cons t tags ih =>
    obtain ⟨htag, hrest⟩ := List.forall_mem_cons.1 ht
    have htail : ∀ l ∈ t.lines.tail, (!startsTag l) = true ∧ (!l.isEmpty) = true := by
      intro l hl
      obtain ⟨hline, hne⟩ := htag.lines l (List.mem_of_mem_tail hl)
      exact ⟨not_startsTag hline.noTag, by simpa using hne⟩
    have hown : ((t.lines.tail ++ (tags.flatMap WrittenTag.text ++ blank)).takeWhile
        (!startsTag ·)).filter (!·.isEmpty) = t.lines.tail := by
      rw [List.takeWhile_append_of_pos fun l hl => (htail l hl).1, List.filter_append,
        List.filter_eq_self.2 fun l hl => (htail l hl).2, List.filter_eq_nil_iff.2, List.append_nil]
      intro l hl
      simp [takeWhile_tags tags h l hl]
    have hnext : (t.lines.tail ++ (tags.flatMap WrittenTag.text ++ blank)).dropWhile (!startsTag ·) =
        (tags.flatMap WrittenTag.text ++ blank).dropWhile (!startsTag ·) :=
      List.dropWhile_append_of_pos fun l hl => (htail l hl).1
    rw [List.flatMap_cons, List.append_assoc, WrittenTag.text, List.cons_append,
      List.dropWhile_cons_of_neg (by simp [startsTag]), tagTexts, hown, hnext, ih hrest]
    rfl

/-- **A doc comment reads back as it was written,** its description and its tags. -/
theorem comment_read_back (w : WrittenComment) (h : w.Proper) (raw : String)
    (hraw : IsBlock raw w.contents) : DocComment.parse raw = w.value := by
  have hcontents : ∀ l ∈ w.contents, Trimmed l ∧ '\n' ∉ l := by
    intro l hl
    rcases List.mem_append.1 hl with hl | hl
    · exact ⟨(h.lines l hl).trimmed, (h.lines l hl).oneLine⟩
    · obtain ⟨t, ht, hl⟩ := List.mem_flatMap.1 hl
      exact (h.tags t ht).trimmed_text l hl
  obtain ⟨blank, hblank, hbody⟩ := map_trim_body hraw hcontents
  have htext : ∀ l ∈ [] :: w.description, (!startsTag l) = true :=
    List.forall_mem_cons.2 ⟨rfl, fun l hl => not_startsTag (h.lines l hl).noTag⟩
  have hsplit : [] :: (w.contents ++ blank) =
      [] :: w.description ++ (w.tags.flatMap WrittenTag.text ++ blank) := by
    rw [WrittenComment.contents, List.append_assoc, List.cons_append]
  have hdescription : trim (joinWith ['\n'] ((([] :: w.description) ++
      (w.tags.flatMap WrittenTag.text ++ blank)).takeWhile (!startsTag ·))) =
        joinWith ['\n'] w.description := by
    rw [List.takeWhile_append_of_pos htext,
      trim_joinWith_append_blank _ (takeWhile_tags w.tags hblank), trim_joinWith_cons_nil]
    exact (trimmed_joinWith _ (fun l hl => (h.lines l hl).trimmed) h.first h.last).trim_eq
  have htags : tagTexts ((([] :: w.description) ++
      (w.tags.flatMap WrittenTag.text ++ blank)).dropWhile (!startsTag ·)) =
        w.tags.map fun t => joinWith ['\n'] t.text := by
    rw [List.dropWhile_append_of_pos htext, tagTexts_tags h.tags hblank]
  rw [DocComment.parse, hbody, hsplit]
  simp only [hdescription, htags, WrittenComment.value, List.map_map]
  congr 1
  exact List.map_congr_left fun t ht => (h.tags t ht).parse_text

/-- A comment with an empty line, a line that starts with a star, nested braces, an optional name and a
description that goes on. -/
def sampleComment : WrittenComment where
  description := ["Sums.".toList, [], "*Once*.".toList]
  tags := [
    { title := "param".toList, type := some "\x7ba: T\x7d".toList, name := some ("xs".toList, true),
      lines := ["the items".toList, "in order".toList] },
    { title := "returns".toList }]

/-- The sample as it may stand in a script. -/
def sampleBlock : String :=
  "/**\n * Sums.\n *\n\t* *Once*.\n * @param \x7b\x7ba: T\x7d\x7d [xs] the items\n  *   in order\n*@returns\n */"

theorem sampleBlock_read_back : sampleComment.Proper ∧ IsBlock sampleBlock sampleComment.contents ∧
    DocComment.parse sampleBlock = { description := "Sums.\n\n*Once*.", tags := [
      { title := "param", typeExpr := some "\x7ba: T\x7d", name := some "xs", optional := true,
        description := "the items\nin order" },
      { title := "returns" }] } := by
  have hbraces : Balanced '{' '}' "\x7ba: T\x7d".toList :=
    .group (s := "a: T".toList) (balanced_of_not_mem (by decide) (by decide)) .nil
  have hproper : sampleComment.Proper := by
    refine ⟨by decide +kernel, by decide +kernel, by decide +kernel, ?_⟩
    refine List.forall_mem_cons.2 ⟨?_, List.forall_mem_singleton.2 ?_⟩
    · refine ⟨by decide +kernel, by simp [isBlank], by decide +kernel, ?_, by decide +kernel,
        by decide +kernel, ?_, by decide +kernel, by decide +kernel, nofun⟩
      · exact fun s hs => Option.some.inj hs ▸ ⟨by decide +kernel, by decide +kernel, hbraces⟩
      · exact fun n hn => Option.some.inj hn ▸ ⟨by decide +kernel, by decide +kernel, by simp [isBlank]⟩
    · exact ⟨by decide +kernel, by simp [isBlank], by decide +kernel, nofun, by decide +kernel,
        by decide +kernel, nofun, nofun, by decide +kernel, fun _ _ => by decide +kernel⟩
  have hblock : IsBlock sampleBlock sampleComment.contents := by
    refine ⟨_, [' '], .cons (.star [' '] [' '] _ ?_ ?_) (.cons (.star [' '] [] _ ?_ ?_)
      (.cons (.star ['\t'] [' '] _ ?_ ?_) (.cons (.star [' '] [' '] _ ?_ ?_)
        (.cons (.star [' ', ' '] [' ', ' ', ' '] _ ?_ ?_) (.cons (.star [] [] _ ?_ ?_) .nil))))),
      by decide, by decide +kernel⟩ <;> decide
  exact ⟨hproper, hblock, (comment_read_back _ hproper _ hblock).trans (by decide +kernel)⟩

end DocComment

end ScriptAtlas
