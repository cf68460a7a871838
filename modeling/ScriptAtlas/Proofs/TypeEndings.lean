/-
How a type expression ends. What is read at the end of a text is read in the same way
before a bracket that closes or an equals sign (`Derives.append`), whatever the
readers look ahead to: the end of a name or of a table's path, a question mark with
nothing behind it, the parenthesis of a function type, the marks after a type. The
one thing that could go wrong is that what is put behind the text becomes a mark
after a type: a bracket that closes a square one left open at the very end, and an
equals sign with nothing before it (`Hanging`). It matters only where marks after a
type were looked for last (`Loose`), and so neither behind a question mark on its own
nor behind a bracket that closed.
-/
import ScriptAtlas.Proofs.TextLaws
import ScriptAtlas.Proofs.TypeForm
import ScriptAtlas.Proofs.TypeRoundTrip

namespace ScriptAtlas.DocType

open Text

/-! ## More text behind what is read -/

section

variable {c d : Char} {s r y : List Char}

theorem trimStart_append_of_cons (h : trimStart s = d :: r) (x : List Char) :
    trimStart (s ++ x) = d :: (r ++ x) := by
  unfold trimStart at h ⊢
  rw [List.dropWhile_append, h]
  rfl

theorem tail?_append (h : tail? d s = some r) (x : List Char) : tail? d (s ++ x) = some (r ++ x) :=
  tail?_eq_some_iff.2 (trimStart_append_of_cons (tail?_eq_some_iff.1 h) x)

theorem signature?_append {n : List Char} (h : signature? n s = some r) (x : List Char) :
    signature? n (s ++ x) = some (r ++ x) := by
  obtain ⟨hn, h⟩ := Option.ite_none_right_eq_some.1 h
  rw [signature?, if_pos hn, tail?_append h]

theorem behind?_append {lead : List Char} (h : behind? lead s = some r) (x : List Char) :
    behind? lead (s ++ x) = some (r ++ x) := by
  rw [eq_of_behind? h, List.append_assoc, behind?_self]

theorem angle?_append (h : angle? s = some r) (x : List Char) : angle? (s ++ x) = some (r ++ x) := by
  rw [angle?_eq, Option.or_eq_some_iff] at h
  rcases h with h | ⟨-, h⟩
  · have hs := eq_of_behind? h
    rw [angle?_eq, trimStart_append_of_cons hs]
    exact Option.or_eq_some_iff.2 (.inl (behind?_self ['.', '<'] (r ++ x)))
  · have hs := tail?_eq_some_iff.1 h
    rw [angle?_eq, trimStart_append_of_cons hs, behind?_cons_of_ne (by decide), Option.none_or,
      tail?_append h]

theorem closed?_cons {open_ close : Char} {depth : Nat} : closed? open_ close depth (d :: s) =
    if d = open_ then closed? open_ close (depth + 1) s
    else if d = close then if depth ≤ 1 then some s else closed? open_ close (depth - 1) s
    else closed? open_ close depth s := by
  unfold closed?
  rw [afterBalanced?]
  repeat' split
  all_goals simp only [Option.map_map, Option.map_some]
  all_goals rfl

theorem closed?_append {open_ close : Char} {depth : Nat} (h : closed? open_ close depth s = some r)
    (x : List Char) : closed? open_ close depth (s ++ x) = some (r ++ x) := by
  induction s generalizing depth with
  | nil => cases h
  | cons d s ih =>
    rw [List.cons_append, closed?_cons]
    rw [closed?_cons] at h
    by_cases hopen : d = open_
    · rw [if_pos hopen] at h ⊢
      exact ih h
    · rw [if_neg hopen] at h ⊢
      by_cases hclose : d = close
      · rw [if_pos hclose] at h ⊢
        by_cases hdepth : depth ≤ 1
        · rw [if_pos hdepth] at h ⊢
          rw [Option.some.inj h]
        · rw [if_neg hdepth] at h ⊢
          exact ih h
      · rw [if_neg hclose] at h ⊢
        exact ih h

/-! ## A mark behind what is read -/

theorem takeWhile_append_stop {p : Char → Bool} (hc : p c = false) (s y : List Char) :
    (s ++ c :: y).takeWhile p = s.takeWhile p := by
  induction s with
  | nil => simp [hc]
  | cons d s ih => simp [List.takeWhile_cons, ih]

theorem dropWhile_append_stop {p : Char → Bool} (hc : p c = false) (s y : List Char) :
    (s ++ c :: y).dropWhile p = s.dropWhile p ++ c :: y := by
  induction s with
  | nil => simp [hc]
  | cons d s ih =>
    simp only [List.cons_append, List.dropWhile_cons, ih]
    split <;> rfl

/-- What stopped a run stops it when more text follows. -/
theorem run_append {p : Char → Bool} (h : s.dropWhile p = d :: r) (x : List Char) :
    (s ++ x).takeWhile p = s.takeWhile p ∧ (s ++ x).dropWhile p = d :: (r ++ x) := by
  have hd : p d = false := by
    have hnot := List.head?_dropWhile_not p s
    simpa [h] using hnot
  have hs : s ++ x = s.takeWhile p ++ d :: (r ++ x) := by
    conv_lhs => rw [← List.takeWhile_append_dropWhile (p := p) (l := s), h]
    simp
  have hrun : ∀ e ∈ s.takeWhile p, p e = true := fun e he => List.mem_takeWhile_imp he
  rw [hs]
  exact ⟨takeWhile_run hrun (stops_at hd), dropWhile_run hrun (stops_at hd)⟩

theorem trimStart_append_stop (hb : isBlank c = false) (s y : List Char) :
    trimStart (s ++ c :: y) = trimStart s ++ c :: y := dropWhile_append_stop hb s y

theorem tail?_append_none (hb : isBlank c = false) (hne : c ≠ d) (h : tail? d s = none)
    (y : List Char) : tail? d (s ++ c :: y) = none := by
  rw [tail?_eq] at h ⊢
  rw [trimStart_append_stop hb]
  cases hs : trimStart s with
  | nil => exact if_neg hne
  | cons e l =>
    rw [hs] at h
    by_cases he : e = d
    · cases (if_pos he).symm.trans h
    · exact if_neg he

theorem signature?_append_none (hb : isBlank c = false) (hc : c ≠ '(') {n : List Char}
    (h : signature? n s = none) (y : List Char) : signature? n (s ++ c :: y) = none := by
  unfold signature? at h ⊢
  by_cases hn : n = "function".toList
  · rw [if_pos hn] at h ⊢
    exact tail?_append_none hb hc h y
  · rw [if_neg hn]

theorem behind?_append_none {lead : List Char} (hc : c ∉ lead) (h : behind? lead s = none)
    (y : List Char) : behind? lead (s ++ c :: y) = none := by
  rw [behind?_eq, ite_eq_right_iff] at h ⊢
  intro hlead
  by_cases hle : lead.length ≤ s.length
  · exact absurd (h (List.prefix_of_prefix_length_le hlead (List.prefix_append _ _) hle)) (by simp)
  · have hmore : s ++ [c] <+: lead := by
      refine List.prefix_of_prefix_length_le ?_ hlead (by simp; omega)
      exact ⟨y, by simp⟩
    exact absurd (hmore.subset (by simp)) hc

theorem angle?_append_none (hb : isBlank c = false) (hc : c ≠ '<') (hdot : c ≠ '.')
    (h : angle? s = none) (y : List Char) : angle? (s ++ c :: y) = none := by
  rw [angle?_eq, Option.or_eq_none_iff] at h ⊢
  rw [trimStart_append_stop hb]
  exact ⟨behind?_append_none (by simp [hc, hdot]) h.1 y, tail?_append_none hb hc h.2 y⟩

theorem endsUnknown_append (hc : c ∈ '=' :: listEnds) (s y : List Char) :
    endsUnknown (trimStart (s ++ c :: y)) = endsUnknown (trimStart s) := by
  have hb : isBlank c = false := not_mem_class (by decide) c hc
  rw [trimStart_append_stop hb]
  cases trimStart s with
  | nil =>
    simp only [listEnds, List.mem_cons, List.not_mem_nil, or_false] at hc
    rcases hc with rfl | rfl | rfl | rfl <;> rfl
  | cons e l => rfl

theorem dottedName_more (h : s.dropWhile isNameChar = '.' :: d :: r) (hd : isNameStart d = true) :
    dottedName s =
      (s.takeWhile isNameChar ++ '.' :: (dottedName (d :: r)).1, (dottedName (d :: r)).2) := by
  rw [dottedName]
  split
  · rename_i h'
    obtain ⟨-, rfl, rfl⟩ : '.' = '.' ∧ d = _ ∧ r = _ := by simpa using h.symm.trans h'
    rw [if_pos hd]
  · rename_i hno
    exact absurd h (hno d r)

theorem dottedName_stop
    (h : ∀ d r, s.dropWhile isNameChar = '.' :: d :: r → isNameStart d = false) :
    dottedName s = (s.takeWhile isNameChar, s.dropWhile isNameChar) := by
  rw [dottedName]
  split
  · rename_i h'
    rw [if_neg (by simp [h _ _ h']), h']
  · rfl

theorem dottedName_append_stop (hc : isNameChar c = false) (hdot : c ≠ '.') (s y : List Char) :
    dottedName (s ++ c :: y) = ((dottedName s).1, (dottedName s).2 ++ c :: y) := by
  have hstart : isNameStart c = false := by
    rw [Bool.eq_false_iff] at hc ⊢
    exact fun h => hc (isNameChar_of_isNameStart h)
  by_cases hmore : ∃ d r, s.dropWhile isNameChar = '.' :: d :: r ∧ isNameStart d = true
  · obtain ⟨d, r, hs, hd⟩ := hmore
    have hlt : (d :: r).length < s.length := by
      have hle := (List.dropWhile_sublist (l := s) isNameChar).length_le
      simp only [hs, List.length_cons] at hle ⊢
      omega
    have ih := dottedName_append_stop hc hdot (d :: r) y
    have hs' : (s ++ c :: y).dropWhile isNameChar = '.' :: d :: (r ++ c :: y) := by
      rw [dropWhile_append_stop hc, hs]
      rfl
    rw [dottedName_more hs hd, dottedName_more hs' hd, takeWhile_append_stop hc]
    rw [List.cons_append] at ih
    rw [ih]
  · -- a dot at the very end starts no further word before the mark either
    have hstop : ∀ d r, s.dropWhile isNameChar = '.' :: d :: r → isNameStart d = false :=
      fun d r hs => Bool.eq_false_iff.2 fun hd => hmore ⟨d, r, hs, hd⟩
    rw [dottedName_stop hstop, dottedName_stop, takeWhile_append_stop hc, dropWhile_append_stop hc]
    intro d r hs'
    rw [dropWhile_append_stop hc] at hs'
    cases hs : s.dropWhile isNameChar with
    | nil =>
      rw [hs] at hs'
      exact absurd (List.cons.inj hs').1 hdot
    | cons e l =>
      rw [hs] at hs'
      obtain ⟨rfl, hl⟩ := List.cons.inj hs'
      cases l with
      | nil => exact (List.cons.inj hl).1 ▸ hstart
      | cons f l => exact (List.cons.inj hl).1 ▸ hstop f l hs
termination_by s.length

/-! ## Where marks after a type are looked for -/

/-- What follows a mark in front of a type. -/
def markTail? (s : List Char) : Option (List Char) :=
  (tail? '?' s).or ((tail? '!' s).or (behind? ['.', '.', '.'] (trimStart s)))

theorem length_of_markTail? (h : markTail? s = some r) : r.length < s.length := by
  rcases Option.or_eq_some_iff.1 h with h | ⟨-, h⟩
  · exact length_of_tail? h
  rcases Option.or_eq_some_iff.1 h with h | ⟨-, h⟩
  · exact length_of_tail? h
  · have hdots := length_of_behind? h
    have htrim := (suffix_trimStart s).length_le
    simp only [List.length_cons, List.length_nil] at hdots
    omega

theorem markTail?_question (h : tail? '?' s = some r) : markTail? s = some r := by
  rw [markTail?, h]
  rfl

theorem markTail?_exclamation (hnull : tail? '?' s = none) (h : tail? '!' s = some r) :
    markTail? s = some r := by
  rw [markTail?, hnull, h]
  rfl

theorem markTail?_dots (hnull : tail? '?' s = none) (hreq : tail? '!' s = none)
    (h : behind? ['.', '.', '.'] (trimStart s) = some r) : markTail? s = some r := by
  rw [markTail?, hnull, hreq, h]
  rfl

/-- What follows all the marks in front of a type. -/
def behindMarks (s : List Char) : List Char :=
  match _h : markTail? s with
  | some r => behindMarks r
  | none => s
termination_by s.length
decreasing_by exact length_of_markTail? _h

theorem behindMarks_of_some (h : markTail? s = some r) : behindMarks s = behindMarks r := by
  rw [behindMarks]
  split
  · rename_i h'
    rw [Option.some.inj (h.symm.trans h')]
  · rename_i h'
    cases h.symm.trans h'

theorem behindMarks_of_none (h : markTail? s = none) : behindMarks s = s := by
  rw [behindMarks]
  split
  · rename_i h'
    cases h.symm.trans h'
  · rfl

/-- No type follows the marks in front of one: the last of them is a question mark on its own. -/
def isLone (s : List Char) : Bool := endsUnknown (trimStart (behindMarks s))

theorem isLone_of_some (h : markTail? s = some r) : isLone s = isLone r := by
  rw [isLone, isLone, behindMarks_of_some h]

/-- What follows the colon of a function type. -/
def returned? (s : List Char) : Option (List Char) :=
  (signature? (dottedName (trimStart s)).1 (dottedName (trimStart s)).2).bind fun r =>
    (closed? '(' ')' 1 r).bind (tail? ':')

theorem length_of_returned? (h : returned? s = some r) : r.length < s.length := by
  obtain ⟨r₁, hopen, h⟩ := Option.bind_eq_some_iff.1 h
  obtain ⟨r₂, hclosed, hcolon⟩ := Option.bind_eq_some_iff.1 h
  have happend := congrArg List.length (dottedName_append (trimStart s))
  have htrim := (suffix_trimStart s).length_le
  have hlt₁ := length_of_tail? (Option.ite_none_right_eq_some.1 hopen).2
  have hle := (suffix_of_closed? hclosed).length_le
  have hlt₂ := length_of_tail? hcolon
  rw [List.length_append] at happend
  omega

theorem returned?_trimStart (s : List Char) : returned? (trimStart s) = returned? s := by
  have htwice : trimStart (trimStart s) = trimStart s := trimStart_eq_self (head?_trimStart s)
  rw [returned?, returned?, htwice]

/-- The text starts with a function type, and what is returned is no lone question mark. -/
def OpenReturn (s : List Char) : Prop := ∃ ρ, returned? s = some ρ ∧ isLone ρ = false

/-- Marks after a type were looked for last when the rule read this text, or may have been. -/
def Loose : Rule → List Char → Prop
  | .unary, s => isLone s = false
  | .primary, s => OpenReturn s
  | .named, s => OpenReturn s
  | .list _, _ => False
  | _, _ => True

theorem returned?_eq_some {r₀ r₁ r₂ : List Char} {n : List Char} (hn : dottedName s = (d :: n, r₀))
    (hopen : signature? (d :: n) r₀ = some r₁) (hclosed : closed? '(' ')' 1 r₁ = some r₂)
    (hcolon : tail? ':' r₂ = some r) : returned? s = some r := by
  have hs : trimStart s = s := by
    have hword := (Option.ite_none_right_eq_some.1 hopen).1
    have happend := dottedName_append s
    rw [hn, hword] at happend
    rw [← happend]
    exact trimStart_cons (by decide)
  rw [returned?, hs, hn]
  simp only [hopen, hclosed, hcolon, Option.bind_some]

/-- A question mark with nothing behind it is alone. -/
theorem isLone_of_endsUnknown (h : endsUnknown (trimStart s) = true) : isLone s = true := by
  have hmarks : markTail? s = none := by
    rw [markTail?, tail?_eq, tail?_eq]
    cases hs : trimStart s with
    | nil => rfl
    | cons c l =>
      rw [hs] at h
      have hne : ∀ d ∈ ['?', '!', '.'], c ≠ d := by
        rintro d hd rfl
        simp only [List.mem_cons, List.not_mem_nil, or_false] at hd
        rcases hd with rfl | rfl | rfl <;> cases h
      rw [behind?_cons_of_ne (hne '.' (by decide)).symm]
      simp [hne '?' (by decide), hne '!' (by decide)]
  rw [isLone, behindMarks_of_none hmarks, h]

/-- Where something other than a mark starts, a type can take marks behind it. -/
theorem isLone_of_primary {ts : List DocType} (hnull : tail? '?' s = none) (hreq : tail? '!' s = none)
    (hrest : behind? ['.', '.', '.'] (trimStart s) = none) (h : Derives .primary s ts r) :
    isLone s = false := by
  have hmarks : markTail? s = none := by rw [markTail?, hnull, hreq, hrest]; rfl
  have hopens {c : Char} {s₁ : List Char} (hs : trimStart s = c :: s₁) (hc : c ∉ postEnds) :
      endsUnknown (trimStart s) = false := by
    rw [hs]
    simpa [endsUnknown, postEnds, memberEnds, typeEnds, listEnds, and_assoc, and_comm, and_left_comm]
      using hc
  rw [isLone, behindMarks_of_none hmarks]
  cases h with
  | grouped hs => exact hopens hs (by decide)
  | all hs => exact hopens hs (by decide)
  | quoted hs hq => exact hopens hs (by rcases hq with rfl | rfl <;> decide)
  | record hs => exact hopens hs (by decide)
  | array hs => exact hopens hs (by decide)
  | table hs => exact hopens hs (by decide)
  | named hs hc =>
    refine hopens hs fun hmem => ?_
    have hends : postEnds.all (!isNameStart ·) = true := by decide +kernel
    rw [not_mem_class hends _ hmem] at hc
    cases hc

/-! ## A closing bracket or an equals sign behind what is read -/

/-- With `c` behind it, the text is a mark after a type. -/
def Hanging (c : Char) (s : List Char) : Prop :=
  trimStart (s ++ [c]) = ['[', ']'] ∨ trimStart (s ++ [c]) = ['=']

theorem hanging_iff (hb : isBlank c = false) :
    Hanging c s ↔ trimStart s = ['['] ∧ c = ']' ∨ trimStart s = [] ∧ c = '=' := by
  rw [Hanging, trimStart_append_stop hb]
  have hpair : trimStart s ++ [c] = ['['] ++ [']'] ↔ trimStart s = ['['] ∧ c = ']' :=
    List.append_singleton_inj
  have hsign : trimStart s ++ [c] = [] ++ ['='] ↔ trimStart s = [] ∧ c = '=' :=
    List.append_singleton_inj
  exact or_congr hpair hsign

theorem not_hanging_of_tail? (h : tail? d s = some r) (hd : d ≠ '[') (c : Char) : ¬ Hanging c s := by
  rw [Hanging, trimStart_append_of_cons (tail?_eq_some_iff.1 h)]
  simp [hd]

theorem not_hanging_of_suffixed (hb : isBlank c = false) {t u : DocType} (h : suffixed t s = (u, r))
    (hr : ¬ Hanging c r) : ¬ Hanging c s := by
  intro hs
  rcases (hanging_iff hb).1 hs with ⟨hs', -⟩ | ⟨hs', -⟩
  all_goals
    rw [suffixed_eq, hs'] at h
    exact hr ((Prod.mk.inj h).2 ▸ hs)

theorem suffixed_append_stop (hb : isBlank c = false) (hopen : c ≠ '[') {t u : DocType}
    (h : suffixed t s = (u, r)) (hr : ¬ Hanging c r) (y : List Char) :
    suffixed t (s ++ c :: y) = (u, r ++ c :: y) := by
  unfold suffixed at h
  fun_induction suffixes t s with
  | case1 t s r₁ hs _ t' r' heq ih =>
    rw [suffixed_eq, trimStart_append_of_cons hs]
    exact ih (by rwa [heq])
  | case2 t s r₁ hs _ t' r' heq ih =>
    rw [suffixed_eq, trimStart_append_of_cons hs]
    exact ih (by rwa [heq])
  | case3 t s harray hopt =>
    obtain ⟨rfl, rfl⟩ := Prod.mk.inj h
    rw [suffixed_eq, trimStart_append_stop hb]
    cases hs : trimStart s with
    | nil =>
      split
      · rename_i h'
        exact absurd (List.cons.inj h').1 hopen
      · rename_i h'
        exact absurd ((hanging_iff hb).2 (.inr ⟨hs, (List.cons.inj h').1⟩)) hr
      · rfl
    | cons e l =>
      split
      · rename_i h'
        obtain ⟨rfl, hl⟩ := List.cons.inj h'
        cases l with
        | nil => exact absurd ((hanging_iff hb).2 (.inl ⟨hs, (List.cons.inj hl).1⟩)) hr
        | cons f l => exact absurd ((List.cons.inj hl).1 ▸ hs) (harray l)
      · rename_i h'
        exact absurd ((List.cons.inj h').1 ▸ hs) (hopt l)
      · rfl

theorem not_hanging_of_members {ts : List DocType} (h : Derives .members s ts r)
    (hr : ¬ Hanging c r) : ¬ Hanging c s := by
  cases h with
  | noMember => exact hr
  | member h => exact not_hanging_of_tail? h (by decide) c

theorem not_hanging_of_items {ts : List DocType} (h : Derives .items s ts r) (hr : ¬ Hanging c r) :
    ¬ Hanging c s := by
  cases h with
  | noItem => exact hr
  | item h => exact not_hanging_of_tail? h (by decide) c

/-- **What is read before the end of a text is read before a closing bracket** or an equals sign. By
induction on the derivation: each choice is made for the same reason, since no mark that is looked for
is one of these, but for the marks after a type. -/
theorem Derives.append {rule : Rule} {ts : List DocType} (h : Derives rule s ts r)
    (hr : Loose rule s → ¬ Hanging c r) (hc : c ∈ '=' :: listEnds) (y : List Char) :
    Derives rule (s ++ c :: y) ts (r ++ c :: y) := by
  have hb : isBlank c = false := not_mem_class (by decide) c hc
  have hname : isNameChar c = false :=
    isNameChar_of_mem_nameEnds c ((show '=' :: listEnds ⊆ nameEnds by decide) hc)
  have htable : isTableChar c = false := not_mem_class (by decide +kernel) c hc
  have hne {d : Char} (hd : d ∉ '=' :: listEnds) : c ≠ d := by
    rintro rfl
    exact hd hc
  have hdotted {s n r : List Char} (hn : dottedName s = (n, r)) :
      dottedName (s ++ c :: y) = (n, r ++ c :: y) := by
    rw [dottedName_append_stop hname (hne (by decide)), hn]
  have hmark {d : Char} (hd : d ∉ '=' :: listEnds) {s : List Char} (hs : tail? d s = none) :
      tail? d (s ++ c :: y) = none := tail?_append_none hb (hne hd) hs y
  have hdots {s : List Char} (hs : behind? ['.', '.', '.'] (trimStart s) = none) :
      behind? ['.', '.', '.'] (trimStart (s ++ c :: y)) = none := by
    rw [trimStart_append_stop hb]
    exact behind?_append_none (by simp [hne (show '.' ∉ '=' :: listEnds by decide)]) hs y
  induction h with
  | union _ hts iht ihts =>
    have hr := hr trivial
    exact .union (iht fun _ => not_hanging_of_members hts hr) (ihts fun _ => hr)
  | noMember h => exact .noMember (hmark (by decide) h)
  | member h _ hts iht ihts =>
    have hr := hr trivial
    exact .member (tail?_append h _) (iht fun _ => not_hanging_of_members hts hr) (ihts fun _ => hr)
  | unknown h hend => exact .unknown (tail?_append h _) ((endsUnknown_append hc _ y).trans hend)
  | nullable h hend _ iht =>
    refine .nullable (tail?_append h _) ((endsUnknown_append hc _ y).trans hend) (iht fun hloose => ?_)
    exact hr ((isLone_of_some (markTail?_question h)).trans hloose)
  | required hnull h _ iht =>
    refine .required (hmark (by decide) hnull) (tail?_append h _) (iht fun hloose => ?_)
    exact hr ((isLone_of_some (markTail?_exclamation hnull h)).trans hloose)
  | rest hnull hreq h _ iht =>
    refine .rest (hmark (by decide) hnull) (hmark (by decide) hreq) ?_ (iht fun hloose => ?_)
    · rw [trimStart_append_stop hb, behind?_append h]
    · exact hr ((isLone_of_some (markTail?_dots hnull hreq h)).trans hloose)
  | posted hnull hreq hrest ht hu iht =>
    have hr := hr (isLone_of_primary hnull hreq hrest ht)
    exact .posted (hmark (by decide) hnull) (hmark (by decide) hreq) (hdots hrest)
      (iht fun _ => not_hanging_of_suffixed hb hu hr)
      (suffixed_append_stop hb (hne (by decide)) hu hr y)
  | grouped hs _ hr' iht =>
    exact .grouped (trimStart_append_of_cons hs _) (iht fun _ => not_hanging_of_tail? hr' (by decide) c)
      (tail?_append hr' _)
  | all hs => exact .all (trimStart_append_of_cons hs _)
  | quoted hs hq hr' =>
    obtain ⟨htake, hdrop⟩ := run_append hr' (c :: y)
    rw [← htake]
    exact .quoted (trimStart_append_of_cons hs _) hq hdrop
  | record hs hr' => exact .record (trimStart_append_of_cons hs _) (closed?_append hr' _)
  | array hs _ ihts => exact .array (trimStart_append_of_cons hs _) (ihts False.elim)
  | table hs =>
    rw [← takeWhile_append_stop htable _ y, ← dropWhile_append_stop htable]
    refine .table ?_
    rw [trimStart_append_stop hb, hs, List.append_assoc]
  | named hs hstart hpath _ iht =>
    have hlead : "db:/".toList.all (· ∉ '=' :: listEnds) = true := by decide
    have hlead : c ∉ "db:/".toList := fun h => of_decide_eq_true (List.all_eq_true.1 hlead c h) hc
    refine .named (trimStart_append_of_cons hs _) hstart (behind?_append_none hlead hpath y)
      (iht fun hloose => hr ?_)
    rwa [Loose, OpenReturn, ← returned?_trimStart, hs]
  | function hn hopen hr' hcolon =>
    exact .function (hdotted hn) (signature?_append hopen _) (closed?_append hr' _)
      (hmark (by decide) hcolon)
  | returning hn hopen hr' hcolon _ iht =>
    refine .returning (hdotted hn) (signature?_append hopen _) (closed?_append hr' _)
      (tail?_append hcolon _) (iht fun hloose => ?_)
    exact hr ⟨_, returned?_eq_some hn hopen hr' hcolon, hloose⟩
  | name hn hword hopen hangle =>
    exact .name (hdotted hn) hword (signature?_append_none hb (hne (by decide)) hopen y)
      (angle?_append_none hb (hne (by decide)) (hne (by decide)) hangle y)
  | application hn hword hopen hangle _ ihts =>
    exact .application (hdotted hn) hword (signature?_append_none hb (hne (by decide)) hopen y)
      (angle?_append hangle _) (ihts False.elim)
  | list hclose _ hts hr' iht ihts =>
    have hr₂ := not_hanging_of_tail? hr' (by rintro rfl; revert hclose; decide) c
    exact .list hclose (iht fun _ => not_hanging_of_items hts hr₂) (ihts fun _ => hr₂)
      (tail?_append hr' _)
  | noItem h => exact .noItem (hmark (by decide) h)
  | item h _ hts iht ihts =>
    have hr := hr trivial
    exact .item (tail?_append h _) (iht fun _ => not_hanging_of_items hts hr) (ihts fun _ => hr)

end

end ScriptAtlas.DocType
