/-
The chain of members before the cursor. The scan goes back over names, dots and
blanks and stops at anything else, and what it makes of this stretch of the text
is the stretch without its blanks (`memberChain_eq`). The stretch is the longest end
of the text before the cursor that has nothing else in it, and a cursor inside of a
character has no text before it (`memberChain_eq_iff`). So a segment of the chain is
what stands between two dots, without blanks.

Where it is one name with blanks around it, the segment is that name, as it stands
in the text. But blanks are dropped between names as well, and two names that have
only blanks between them become one segment that stands nowhere
(`segments_are_names_iff`).
-/
import Mathlib.Data.String.Basic
import ScriptAtlas.Cursor
import ScriptAtlas.Proofs.TextLaws

namespace ScriptAtlas.Cursor

open Text

variable {s text before back current piece w : List Char} {c sep : Char} {n offset : Nat}

/-! ## The text before the cursor -/

/-- The text before a byte of it, or all of it if the byte is behind its end. -/
structure IsBefore (text : List Char) (offset : Nat) (before : List Char) : Prop where
  leads : before <+: text
  size : String.utf8Len before = min offset (String.utf8Len text)

theorem isBefore_zero : IsBefore text 0 before ↔ before = [] := by
  constructor
  · intro h
    simpa using h.size
  · rintro rfl
    exact ⟨List.nil_prefix, by simp⟩

theorem isBefore_nil : IsBefore [] offset before ↔ before = [] := by
  constructor
  · intro h
    exact List.prefix_nil.1 h.leads
  · rintro rfl
    exact ⟨List.nil_prefix, by simp⟩

/-- The first character is before a later byte, if it ends there at the latest. -/
theorem isBefore_cons : IsBefore (c :: text) (n + 1) before ↔
    c.utf8Size ≤ n + 1 ∧ ∃ rest, before = c :: rest ∧ IsBefore text (n + 1 - c.utf8Size) rest := by
  have hpos := c.utf8Size_pos
  constructor
  · rintro ⟨hleads, hsize⟩
    rcases List.prefix_cons_iff.1 hleads with rfl | ⟨rest, rfl, hrest⟩
    · simp only [String.utf8Len_nil, String.utf8Len_cons] at hsize
      omega
    · simp only [String.utf8Len_cons] at hsize
      have hle := String.utf8Len_le_of_prefix hrest
      exact ⟨by omega, rest, rfl, hrest, by omega⟩
  · rintro ⟨hle, rest, rfl, hrest, hsize⟩
    refine ⟨List.cons_prefix_cons.2 ⟨rfl, hrest⟩, ?_⟩
    simp only [String.utf8Len_cons]
    omega

theorem beforeFrom_eq_some_iff (acc : List Char) :
    beforeFrom acc offset text = some back ↔
      ∃ before, IsBefore text offset before ∧ back = before.reverse ++ acc := by
  induction text generalizing acc offset with
  | nil =>
    have hnil : beforeFrom acc offset [] = some acc := by cases offset <;> rfl
    simp [hnil, isBefore_nil, eq_comm]
  | cons c text ih =>
    cases offset with
    | zero => simp [beforeFrom, isBefore_zero, eq_comm]
    | succ n =>
      rw [beforeFrom]
      split
      · rename_i hc
        rw [ih]
        constructor
        · rintro ⟨rest, hrest, rfl⟩
          exact ⟨c :: rest, isBefore_cons.2 ⟨hc, rest, rfl, hrest⟩, by simp⟩
        · rintro ⟨before, hbefore, rfl⟩
          obtain ⟨-, rest, rfl, hrest⟩ := isBefore_cons.1 hbefore
          exact ⟨rest, hrest, by simp⟩
      · rename_i hc
        simp only [reduceCtorEq, false_iff, not_exists, not_and]
        exact fun before hbefore => absurd (isBefore_cons.1 hbefore).1 hc

/-- Of two starts of a text, the one that has no more bytes is a start of the other one. -/
theorem prefix_of_utf8Len_le {front front' : List Char} (h : front <+: text) (h' : front' <+: text)
    (hle : String.utf8Len front ≤ String.utf8Len front') : front <+: front' := by
  rcases List.prefix_or_prefix_of_prefix h h' with hlead | ⟨more, rfl⟩
  · exact hlead
  · have hmore : more = [] := String.utf8Len_eq_zero.1 (by rw [String.utf8Len_append] at hle; omega)
    simp [hmore]

/-- The byte is inside of a character: some bytes of the character are before it, and some are not. -/
def Inside (text : List Char) (offset : Nat) : Prop :=
  ∃ front c rest, text = front ++ c :: rest ∧ String.utf8Len front < offset ∧
    offset < String.utf8Len front + c.utf8Size

theorem Inside.lt_size (h : Inside text offset) : offset < String.utf8Len text := by
  obtain ⟨front, c, rest, rfl, -, hlt⟩ := h
  rw [String.utf8Len_append, String.utf8Len_cons]
  omega

/-- No text before the byte ends with a part of a character. -/
theorem Inside.not_isBefore (h : Inside text offset) : ¬ IsBefore text offset before := by
  intro hbefore
  have hsize := hbefore.size
  rw [Nat.min_eq_left h.lt_size.le] at hsize
  obtain ⟨front, c, rest, rfl, hfront, hlt⟩ := h
  obtain ⟨more, rfl⟩ := prefix_of_utf8Len_le (List.prefix_append front _) hbefore.leads
    (hsize ▸ hfront.le)
  rw [String.utf8Len_append] at hsize
  -- behind `front` the text goes on with the character, which does not end at the byte
  rcases List.prefix_cons_iff.1 ((List.prefix_append_right_inj front).1 hbefore.leads) with
    rfl | ⟨more, rfl, -⟩
  · rw [String.utf8Len_nil] at hsize
    omega
  · rw [String.utf8Len_cons] at hsize
    omega

theorem isBefore_or_inside (text : List Char) (offset : Nat) :
    (∃ before, IsBefore text offset before) ∨ Inside text offset := by
  induction text generalizing offset with
  | nil => exact .inl ⟨[], isBefore_nil.2 rfl⟩
  | cons c text ih =>
    cases offset with
    | zero => exact .inl ⟨[], isBefore_zero.2 rfl⟩
    | succ n =>
      by_cases hc : c.utf8Size ≤ n + 1
      · rcases ih (n + 1 - c.utf8Size) with ⟨rest, hrest⟩ | ⟨front, d, rest, rfl, hfront, hlt⟩
        · exact .inl ⟨c :: rest, isBefore_cons.2 ⟨hc, rest, rfl, hrest⟩⟩
        · refine .inr ⟨c :: front, d, rest, rfl, ?_, ?_⟩ <;> rw [String.utf8Len_cons] <;> omega
      · exact .inr ⟨[], c, text, rfl, Nat.succ_pos n, by rw [String.utf8Len_nil]; omega⟩

/-! ## The scan -/

/-- The scan skips the character. -/
def isSkipped (c : Char) : Bool := c == ' ' || c == '\t' || c == '\n' || c == '\r'

/-- The scan goes on over the character. -/
def isLink (c : Char) : Bool := isNameChar c || c == '.' || isSkipped c

/-- The text without what is skipped. -/
def bare (s : List Char) : List Char := s.filter (!isSkipped ·)

/-- The end of the text that a scan from there goes over. -/
def stretch (before : List Char) : List Char := (before.reverse.takeWhile isLink).reverse

theorem bare_append (s t : List Char) : bare (s ++ t) = bare s ++ bare t :=
  List.filter_append s t

theorem bare_of_isSkipped (h : ∀ c ∈ s, isSkipped c = true) : bare s = [] := by
  simpa [bare] using h

/-- No character of a name is skipped. -/
theorem isSkipped_of_isNameChar (h : isNameChar c = true) : isSkipped c = false := by
  refine Bool.eq_false_iff.2 fun hskip => ?_
  simp only [isSkipped, Bool.or_eq_true, beq_iff_eq] at hskip
  rcases hskip with ((rfl | rfl) | rfl) | rfl <;> exact absurd h (by decide)

theorem bare_of_isNameChar (h : ∀ c ∈ s, isNameChar c = true) : bare s = s :=
  List.filter_eq_self.2 fun c hc => by simp [isSkipped_of_isNameChar (h c hc)]

theorem joinWith_cons_cons (c : Char) (l : List Char) (ls : List (List Char)) :
    joinWith ['.'] ((c :: l) :: ls) = c :: joinWith ['.'] (l :: ls) := by
  by_cases h : ls = []
  · simp [h]
  · simp [joinWith_cons _ _ h]

/-- What the scan has read when it stops. If it has read nothing of a segment and no dot before it, it
has read nothing at all. -/
theorem joinWith_stopped {afterDot : Bool} {parts : List (List Char)}
    (hstart : current = [] → afterDot = false → parts = []) :
    joinWith ['.'] (if current.isEmpty && !afterDot then parts else current :: parts) =
      joinWith ['.'] (current :: parts) := by
  split
  · rename_i h
    simp only [Bool.and_eq_true, List.isEmpty_iff, Bool.not_eq_true'] at h
    rw [hstart h.1 h.2, h.1]
    rfl
  · rfl

/-- **A scan** goes over a stretch of the text, and gives it without what it skips before what it has
read so far. -/
theorem joinWith_segments (current : List Char) (afterDot : Bool) (parts : List (List Char))
    (hstart : current = [] → afterDot = false → parts = []) :
    joinWith ['.'] (segments current afterDot parts back) =
      bare (back.takeWhile isLink).reverse ++ joinWith ['.'] (current :: parts) := by
  induction back generalizing current afterDot parts with
  | nil =>
    rw [segments, joinWith_stopped hstart]
    rfl
  | cons c back ih =>
    rw [segments]
    by_cases hname : isNameChar c = true
    · have hlink : isLink c = true := by simp [isLink, hname]
      have hbare : bare [c] = [c] := bare_of_isNameChar (List.forall_mem_singleton.2 hname)
      rw [if_pos hname, ih (c :: current) false parts nofun,
        List.takeWhile_cons_of_pos hlink, List.reverse_cons, bare_append, hbare, joinWith_cons_cons]
      simp
    · rw [if_neg hname]
      by_cases hdot : c = '.'
      · subst hdot
        rw [if_pos (beq_self_eq_true _), ih [] true (current :: parts) nofun, List.takeWhile_cons_of_pos rfl,
          List.reverse_cons, bare_append, joinWith_cons _ _ (List.cons_ne_nil _ _)]
        simp [bare, isSkipped]
      · rw [if_neg (by simpa using hdot)]
        change joinWith ['.'] (if isSkipped c = true then _ else _) = _
        by_cases hskip : isSkipped c = true
        · have hlink : isLink c = true := by simp [isLink, hskip]
          rw [if_pos hskip, ih current afterDot parts hstart, List.takeWhile_cons_of_pos hlink,
            List.reverse_cons, bare_append, bare_of_isSkipped (List.forall_mem_singleton.2 hskip)]
          simp
        · have hlink : ¬ isLink c = true := by simp [isLink, hname, hdot, hskip]
          rw [if_neg hskip, joinWith_stopped hstart, List.takeWhile_cons_of_neg hlink]
          rfl

/-- **The chain before the cursor** is the stretch before it without what is skipped. -/
theorem memberChain_eq {text : String} (h : IsBefore text.toList offset before) :
    memberChain text offset = String.ofList (bare (stretch before)) := by
  have hback := (beforeFrom_eq_some_iff []).2 ⟨before, h, rfl⟩
  simp only [memberChain, hback, List.append_nil]
  rw [joinWith_segments [] false [] fun _ _ => rfl, joinWith_singleton, List.append_nil, stretch]

/-- A byte inside of a character has no text before it, and there is no chain. -/
theorem memberChain_eq_empty {text : String} (h : ∀ before, ¬ IsBefore text.toList offset before) :
    memberChain text offset = "" := by
  have hnone : beforeFrom [] offset text.toList = none := by
    refine Option.eq_none_iff_forall_not_mem.2 fun back hback => ?_
    obtain ⟨before, hbefore, -⟩ := (beforeFrom_eq_some_iff []).1 hback
    exact h before hbefore
  rw [memberChain, hnone]

/-! ## The stretch before the cursor -/

/-- The longest end of the text with nothing but such characters. -/
structure IsLongestEnd (p : Char → Bool) (s ending : List Char) : Prop where
  ends : ending <:+ s
  all : ∀ c ∈ ending, p c = true
  longest : ∀ other, other <:+ s → (∀ c ∈ other, p c = true) → other.length ≤ ending.length

theorem IsLongestEnd.unique {p : Char → Bool} {ending other : List Char} (h : IsLongestEnd p s ending)
    (hother : IsLongestEnd p s other) : ending = other := by
  have hends := List.suffix_of_suffix_length_le h.ends hother.ends (hother.longest _ h.ends h.all)
  exact hends.eq_of_length_le (h.longest _ hother.ends hother.all)

/-- The scan goes over the longest end of the text that has only names, dots and what is skipped. -/
theorem isLongestEnd_stretch (before : List Char) : IsLongestEnd isLink before (stretch before) where
  ends := List.reverse_prefix.1 (by rw [stretch, List.reverse_reverse]; exact List.takeWhile_prefix _)
  all := fun c hc => List.mem_takeWhile_imp (List.mem_reverse.1 hc)
  longest := by
    rintro other ⟨front, rfl⟩ hall
    -- read backwards, such an end is taken before the rest of the text is looked at
    rw [stretch, List.length_reverse, List.reverse_append,
      List.takeWhile_append_of_pos fun c hc => hall c (List.mem_reverse.1 hc)]
    simp

/-- What the chain at a byte of the text has to be: what is not skipped of the longest end of the text
before it, and nothing if the byte is inside of a character. -/
inductive ChainAt (text : List Char) (offset : Nat) : List Char → Prop
  | before {before ending : List Char} (hbefore : IsBefore text offset before)
      (hending : IsLongestEnd isLink before ending) : ChainAt text offset (bare ending)
  | inside (h : Inside text offset) : ChainAt text offset []

/-- **The chain is the longest stretch before the cursor.** It has all names and dots of the longest end
of the text before the cursor with nothing but characters of names, dots and what is skipped, in their
order and as often as they stand there. Inside of a character there is none. -/
theorem memberChain_eq_iff (text : String) (offset : Nat) (chain : String) :
    memberChain text offset = chain ↔ ChainAt text.toList offset chain.toList := by
  constructor
  · rintro rfl
    rcases isBefore_or_inside text.toList offset with ⟨before, hbefore⟩ | hinside
    · rw [memberChain_eq hbefore, String.toList_ofList]
      exact .before hbefore (isLongestEnd_stretch before)
    · rw [memberChain_eq_empty fun _ => hinside.not_isBefore]
      exact .inside hinside
  · intro h
    rw [← String.toList_inj]
    generalize chain.toList = found at h ⊢
    cases h with
    | before hbefore hending =>
      rw [memberChain_eq hbefore, String.toList_ofList, hending.unique (isLongestEnd_stretch _)]
    | inside hinside =>
      rw [memberChain_eq_empty fun _ => hinside.not_isBefore]
      rfl

example : memberChain "f(.a\t. .b." 10 = ".a..b." := by decide

/-! ## Segments -/

/-- What stands between the dots of the stretch before the cursor. -/
def pieces (before : List Char) : List (List Char) := splitAtChar '.' (stretch before)

theorem splitAtChar_filter {p : Char → Bool} (hp : p sep = true) (s : List Char) :
    splitAtChar sep (s.filter p) = (splitAtChar sep s).map (List.filter p) := by
  induction s with
  | nil => rfl
  | cons c s ih =>
    obtain ⟨l, ls, hl⟩ := List.exists_cons_of_ne_nil (splitAtChar_ne_nil sep s)
    rw [hl, List.map_cons] at ih
    by_cases hc : c = sep
    · subst hc
      simp [splitAtChar, hp, hl, ih]
    · cases hpc : p c <;> simp [splitAtChar, hpc, hc, hl, ih]

/-- The segments of the chain are the pieces of the stretch, each without what is skipped. -/
theorem splitAtChar_memberChain {text : String} (h : IsBefore text.toList offset before) :
    splitAtChar '.' (memberChain text offset).toList = (pieces before).map bare := by
  rw [memberChain_eq h, String.toList_ofList, bare, splitAtChar_filter rfl]
  rfl

theorem joinWith_around (l : List Char) (ls ms : List (List Char)) :
    ∃ a b, joinWith [sep] (ls ++ l :: ms) = a ++ l ++ b ∧ (∀ c ∈ a.getLast?, c = sep) ∧
      ∀ c ∈ b.head?, c = sep := by
  induction ls with
  | nil =>
    by_cases hms : ms = []
    · exact ⟨[], [], by simp [hms], nofun, nofun⟩
    · exact ⟨[], sep :: joinWith [sep] ms, by simp [joinWith_cons _ _ hms], nofun, by simp⟩
  | cons m ls ih =>
    obtain ⟨a, b, hjoin, ha, hb⟩ := ih
    refine ⟨m ++ sep :: a, b, by simp [joinWith_cons, hjoin], ?_, hb⟩
    cases h : a.getLast? with
    | none => simp [List.getLast?_cons, h]
    | some d => simp [List.getLast?_cons, h, ha d h]

/-- What stands before and behind a piece between separators: a separator or nothing. -/
theorem exists_around_of_mem_splitAtChar {l : List Char} (h : l ∈ splitAtChar sep s) :
    ∃ a b, s = a ++ l ++ b ∧ (∀ c ∈ a.getLast?, c = sep) ∧ ∀ c ∈ b.head?, c = sep := by
  obtain ⟨ls, ms, hsplit⟩ := List.append_of_mem h
  rw [← joinWith_splitAtChar sep s, hsplit]
  exact joinWith_around l ls ms

/-! ## Names -/

/-- The text holds the name: all of a run of characters of names. -/
def HasName (s w : List Char) : Prop :=
  ∃ a b, s = a ++ w ++ b ∧ (∀ c ∈ w, isNameChar c = true) ∧ (∀ c ∈ a.getLast?, isNameChar c = false) ∧
    ∀ c ∈ b.head?, isNameChar c = false

/-- The piece is one name, or none, with nothing but skipped characters around it. -/
def OneName (piece : List Char) : Prop :=
  ∃ a w b, piece = a ++ w ++ b ∧ (∀ c ∈ w, isNameChar c = true) ∧ (∀ c ∈ a, isSkipped c = true) ∧
    ∀ c ∈ b, isSkipped c = true

theorem isNameChar_of_isSkipped (h : isSkipped c = true) : isNameChar c = false := by
  refine Bool.eq_false_iff.2 fun hname => ?_
  rw [isSkipped_of_isNameChar hname] at h
  cases h

/-- A name with skipped characters around it is a name in the text, whatever else ends a name there. -/
theorem hasName_of_around {front a b rest : List Char} (hw : ∀ c ∈ w, isNameChar c = true)
    (ha : ∀ c ∈ a, isSkipped c = true) (hb : ∀ c ∈ b, isSkipped c = true)
    (hfront : ∀ c ∈ front.getLast?, isNameChar c = false)
    (hrest : ∀ c ∈ rest.head?, isNameChar c = false) : HasName (front ++ (a ++ w ++ b) ++ rest) w := by
  refine ⟨front ++ a, b ++ rest, by simp, hw, forall_getLast?_append hfront fun c hc => ?_,
    forall_head?_append (fun c hc => ?_) hrest⟩
  · exact isNameChar_of_isSkipped (ha c (List.mem_of_mem_getLast? hc))
  · exact isNameChar_of_isSkipped (hb c (List.mem_of_mem_head? hc))

theorem bare_around {a b : List Char} (hw : ∀ c ∈ w, isNameChar c = true)
    (ha : ∀ c ∈ a, isSkipped c = true) (hb : ∀ c ∈ b, isSkipped c = true) : bare (a ++ w ++ b) = w := by
  rw [bare_append, bare_append, bare_of_isSkipped ha, bare_of_isSkipped hb, bare_of_isNameChar hw,
    List.nil_append, List.append_nil]

/-- What is left of a piece stands in it as a name exactly if the piece is one name. -/
theorem hasName_bare_iff : HasName piece (bare piece) ↔ OneName piece := by
  constructor
  · rintro ⟨a, b, hpiece, hw, -, -⟩
    -- Nothing of the piece is left but the name, so all around it is skipped.
    have hbare : bare piece = bare a ++ bare piece ++ bare b := by
      conv_lhs => rw [hpiece, bare_append, bare_append, bare_of_isNameChar hw]
    have hlengths := congrArg List.length hbare
    simp only [List.length_append] at hlengths
    have ha : bare a = [] := List.length_eq_zero_iff.1 (by omega)
    have hb : bare b = [] := List.length_eq_zero_iff.1 (by omega)
    exact ⟨a, bare piece, b, hpiece, hw, by simpa [bare] using ha, by simpa [bare] using hb⟩
  · rintro ⟨a, w, b, rfl, hw, ha, hb⟩
    rw [bare_around hw ha hb]
    have hname : HasName ([] ++ (a ++ w ++ b) ++ []) w := hasName_of_around hw ha hb nofun nofun
    simpa using hname

/-- A piece that is one name stands in the text before the cursor as that name. -/
theorem OneName.hasName (hpiece : piece ∈ pieces before) (h : OneName piece) :
    HasName before (bare piece) := by
  obtain ⟨a, w, b, rfl, hw, ha, hb⟩ := h
  obtain ⟨front, rest, hstretch, hfront, hrest⟩ := exists_around_of_mem_splitAtChar hpiece
  have hbefore : before = (before.reverse.dropWhile isLink).reverse ++ stretch before := by
    rw [stretch, ← List.reverse_append, List.takeWhile_append_dropWhile, List.reverse_reverse]
  rw [bare_around hw ha hb, hbefore, hstretch, ← List.append_assoc, ← List.append_assoc]
  refine hasName_of_around hw ha hb (forall_getLast?_append ?_ ?_) ?_
  · intro c hc
    rw [List.getLast?_reverse] at hc
    have hlink := head?_dropWhile _ c hc
    simp only [isLink, Bool.or_eq_false_iff] at hlink
    exact hlink.1.1
  · intro c hc
    rw [hfront c hc]
    rfl
  · intro c hc
    rw [hrest c hc]
    rfl

/-- A piece of which nothing is left is no name, and so not more than one. -/
theorem oneName_of_bare_eq_nil (h : bare piece = []) : OneName piece :=
  ⟨piece, [], [], by simp, List.forall_mem_nil _, by simpa [bare] using h, List.forall_mem_nil _⟩

/-- **When the segments of a chain are names of the text.** A segment is what stands between two dots
before the cursor, without what is skipped, and it stands there as a name exactly if that is one name
with nothing but skipped characters around it. So all segments that are not empty are names of the
text before the cursor, unless several names have only skipped characters between them and are no
name of the text together. A cursor inside of a character has no chain before it. -/
theorem segments_are_names_iff (text : String) (offset : Nat) :
    (∀ before, IsBefore text.toList offset before →
      splitAtChar '.' (memberChain text offset).toList = (pieces before).map bare ∧
      (∀ piece ∈ pieces before, HasName piece (bare piece) ↔ OneName piece) ∧
      ((∀ segment ∈ splitAtChar '.' (memberChain text offset).toList, segment ≠ [] →
          HasName before segment) ↔
        ∀ piece ∈ pieces before, ¬ OneName piece → HasName before (bare piece))) ∧
    ((∀ before, ¬ IsBefore text.toList offset before) → memberChain text offset = "") := by
  refine ⟨fun before hbefore => ?_, memberChain_eq_empty⟩
  have hsegments := splitAtChar_memberChain hbefore
  refine ⟨hsegments, fun _ _ => hasName_bare_iff, ?_⟩
  rw [hsegments, List.forall_mem_map]
  refine forall₂_congr fun piece hpiece => ?_
  constructor
  · intro hname hmany
    exact hname fun hbare => hmany (oneName_of_bare_eq_nil hbare)
  · intro hmany _
    by_cases hone : OneName piece
    · exact hone.hasName hpiece
    · exact hmany hone

theorem blankBeforeDot_segments_are_names :
    IsBefore "x = db .get(".toList 11 "x = db .get".toList ∧ memberChain "x = db .get(" 11 = "db.get" ∧
      ∀ segment ∈ splitAtChar '.' "db.get".toList, segment ≠ [] →
        HasName "x = db .get".toList segment := by
  have hbefore : IsBefore "x = db .get(".toList 11 "x = db .get".toList := ⟨by decide, by decide⟩
  have hchain : memberChain "x = db .get(" 11 = "db.get" := by decide
  have hpieces : pieces "x = db .get".toList = [[' '] ++ ['d', 'b'] ++ [' '], [] ++ "get".toList ++ []] := by
    decide
  have hnames := ((segments_are_names_iff "x = db .get(" 11).1 _ hbefore).2.2
  rw [hchain, hpieces] at hnames
  refine ⟨hbefore, hchain, hnames.2 fun piece hpiece hmany => absurd ?_ hmany⟩
  rcases List.mem_pair.1 hpiece with rfl | rfl <;>
    exact ⟨_, _, _, rfl, List.all_eq_true.1 rfl, List.all_eq_true.1 rfl, List.all_eq_true.1 rfl⟩

/-- A word before the receiver becomes part of the first segment, which is then no name of the text. -/
theorem wordBeforeReceiver_no_name :
    memberChain "return db.get" 13 = "returndb.get" ∧
      "returndb".toList ∈ splitAtChar '.' "returndb.get".toList ∧
      ¬ "returndb".toList <:+: "return db.get".toList :=
  ⟨by decide, by decide, by simp [List.infix_cons_iff]⟩

end ScriptAtlas.Cursor
