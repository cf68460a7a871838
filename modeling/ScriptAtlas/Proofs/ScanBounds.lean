/-
Scanning a type expression with a position never has a fault, and finds what the
readers find. A scan follows a reader (`Follows`) if it ends inside of the text,
finds something exactly if the reader does, and then the same, and has moved at
least so far; where it stops, the text goes on as the reader left it, up to
blanks. The scans call each other with less fuel each time, and either further
on in the text or lower in the order list, union, unary, posted, primary, named.
So a fuel of eight for each character left, and the rank in that order, is
enough (`Scan.bounded`).
-/
import ScriptAtlas.Proofs.TypeEndings
import ScriptAtlas.Proofs.TypeScan

namespace ScriptAtlas.DocType

open Text

/-! ## Where a scan stands -/

/-- From the position on, which is in the text, the text is `s`, up to blanks in front. -/
structure Level (text : List Char) (pos : Nat) (s : List Char) : Prop where
  inside : pos ≤ text.length
  trimmed : trimStart (text.drop pos) = trimStart s

section

variable {text s r u : List Char} {pos stop : Nat} {c : Char}

theorem Level.of_drop (hpos : pos ≤ text.length) (h : text.drop pos = s) : Level text pos s :=
  ⟨hpos, by rw [h]⟩

theorem Level.of_trimStart (hpos : pos ≤ text.length) (h : text.drop pos = trimStart s) : Level text pos s :=
  ⟨hpos, by rw [h, trimStart_eq_self (head?_trimStart s)]⟩

theorem inside_of_drop (h : text.drop pos = c :: s) : pos < text.length := by
  by_contra hle
  rw [List.drop_eq_nil_of_le (by omega)] at h
  cases h

theorem getElem?_of_drop (h : text.drop pos = s) : text[pos]? = s.head? := by
  rw [← h, List.head?_drop]

theorem drop_of_drop_append (h : text.drop pos = u ++ s) : text.drop (pos + u.length) = s := by
  rw [← List.drop_drop, h, List.drop_left]

theorem inside_of_drop_append (h : text.drop pos = u ++ s) (hpos : pos ≤ text.length) :
    pos + u.length ≤ text.length := by
  have hlength := congrArg List.length h
  rw [List.length_drop, List.length_append] at hlength
  omega

/-- One character on. -/
theorem Level.next (h : text.drop pos = c :: s) : Level text (pos + 1) s :=
  .of_drop (inside_of_drop h) (drop_of_drop_append (u := [c]) h)

end

namespace Scan

/-! ## Single moves -/

section

variable {α β : Type} {text s r u : List Char} {pos start stop fuel : Nat} {c : Char} {p : Char → Bool}

theorem run_bind_of_found {m : Scan α} {a : α} (h : m.run text pos = .ok (some a, stop))
    (next : α → Scan β) : (m >>= next).run text pos = (next a).run text stop := by
  simp only [bind, h]

theorem run_bind_of_refused {m : Scan α} (h : m.run text pos = .ok (none, stop)) (next : α → Scan β) :
    (m >>= next).run text pos = .ok (none, stop) := by
  simp only [bind, h]

@[simp] theorem run_pure (a : α) : (pure a : Scan α).run text pos = .ok (some a, pos) := rfl

@[simp] theorem run_here_bind (next : Nat → Scan β) :
    (here >>= next).run text pos = (next pos).run text pos := rfl

@[simp] theorem run_atEnd_bind (next : Bool → Scan β) :
    (atEnd >>= next).run text pos = (next (text.length ≤ pos)).run text pos := rfl

@[simp] theorem run_peek_bind (n : Nat) (next : Option Char → Scan β) :
    (peek n >>= next).run text pos = (next text[pos + n]?).run text pos := rfl

@[simp] theorem run_startsWith_bind (lead : List Char) (next : Bool → Scan β) :
    (startsWith lead >>= next).run text pos = (next (lead.isPrefixOf (text.drop pos))).run text pos := rfl

theorem run_advance (h : text.drop pos = u ++ s) (hpos : pos ≤ text.length) :
    (advance u.length).run text pos = .ok (some (), pos + u.length) :=
  if_pos (inside_of_drop_append h hpos)

theorem run_advance_one (h : text.drop pos = c :: s) : (advance 1).run text pos = .ok (some (), pos + 1) :=
  if_pos (inside_of_drop h)

/-- What stands in front can be passed. -/
theorem run_advance_behind (hpos : pos ≤ text.length) (hs : text.drop pos = s) (h : behind? u s = some r) :
    (advance u.length).run text pos = .ok (some (), pos + u.length) ∧ Level text (pos + u.length) r := by
  have hsplit : text.drop pos = u ++ r := hs.trans (eq_of_behind? h)
  exact ⟨run_advance hsplit hpos, .of_drop (inside_of_drop_append hsplit hpos) (drop_of_drop_append hsplit)⟩

theorem run_slice (h : text.drop start = u ++ s) (hpos : start ≤ text.length) :
    (slice start).run text (start + u.length) = .ok (some u, start + u.length) := by
  have hin := inside_of_drop_append h hpos
  have hu : (text.take (start + u.length)).drop start = u := by
    rw [List.drop_take, h, Nat.add_sub_cancel_left, List.take_left]
  exact (if_pos ⟨Nat.le_add_right _ _, hin⟩).trans (by rw [hu])

/-! ## Loops over characters -/

/-- Characters with the property are passed, and no others. -/
theorem run_skipWhile (hpos : pos ≤ text.length) (hfuel : text.length - pos < fuel) :
    (skipWhile p fuel).run text pos = .ok (some (), pos + ((text.drop pos).takeWhile p).length) := by
  induction fuel generalizing pos with
  | zero => omega
  | succ fuel ih =>
    rw [skipWhile, run_peek_bind, getElem?_of_drop rfl]
    cases hs : text.drop pos with
    | nil => rfl
    | cons c s =>
      have hin := inside_of_drop hs
      have hnext : text.drop (pos + 1) = s := drop_of_drop_append (u := [c]) hs
      by_cases hc : p c = true
      · rw [List.head?_cons, Option.any_some, if_pos hc, run_bind_of_found (run_advance_one hs),
          ih hin (by omega), hnext, List.takeWhile_cons_of_pos hc, List.length_cons]
        congr 2
        omega
      · rw [List.head?_cons, Option.any_some, if_neg hc, List.takeWhile_cons_of_neg hc]
        rfl

/-- Blanks are passed. -/
theorem run_skipBlanks (h : Level text pos s) (hfuel : text.length - pos < fuel) :
    ∃ stop, (skipWhile isBlank fuel).run text pos = .ok (some (), stop) ∧ pos ≤ stop ∧
      stop ≤ text.length ∧ text.drop stop = trimStart s := by
  have hsplit := (List.takeWhile_append_dropWhile (p := isBlank) (l := text.drop pos)).symm
  exact ⟨_, run_skipWhile h.inside hfuel, Nat.le_add_right _ _, inside_of_drop_append hsplit h.inside,
    (drop_of_drop_append hsplit).trans h.trimmed⟩

theorem head?_trimStart_eq_iff : (trimStart s).head? = some c ↔ ∃ r, tail? c s = some r := by
  simp only [List.head?_eq_some_iff, tail?_eq_some_iff]

/-- What became of a character that was looked for. -/
inductive Ate (text : List Char) (pos fuel : Nat) (c : Char) (s : List Char) : Prop
  | yes {r : List Char} {stop : Nat} (htail : tail? c s = some r)
    (hrun : (eat c fuel).run text pos = .ok (some true, stop)) (hlt : pos < stop)
    (hin : stop ≤ text.length) (hback : text.drop (stop - 1) = c :: r) (hdrop : text.drop stop = r)
  | no {stop : Nat} (htail : tail? c s = none) (hrun : (eat c fuel).run text pos = .ok (some false, stop))
    (hle : pos ≤ stop) (hin : stop ≤ text.length) (hdrop : text.drop stop = trimStart s)

theorem ate (h : Level text pos s) (hfuel : text.length - pos < fuel) (c : Char) :
    Ate text pos fuel c s := by
  obtain ⟨stop, hskip, hle, hin, hdrop⟩ := run_skipBlanks h hfuel
  have hrun : (eat c fuel).run text pos =
      (if text[stop + 0]? = some c then advance 1 >>= fun _ => pure true else pure false).run text stop := by
    rw [eat, run_bind_of_found hskip, run_peek_bind]
  rw [Nat.add_zero, getElem?_of_drop hdrop] at hrun
  cases htail : tail? c s with
  | some r =>
    have hs := tail?_eq_some_iff.1 htail
    rw [hs] at hdrop
    rw [hs, List.head?_cons, if_pos rfl, run_bind_of_found (run_advance_one hdrop)] at hrun
    exact .yes htail hrun (by omega) (inside_of_drop hdrop) hdrop (drop_of_drop_append (u := [c]) hdrop)
  | none =>
    rw [if_neg (by simp [head?_trimStart_eq_iff, htail])] at hrun
    exact .no htail hrun hle hin hdrop

theorem run_ident (hpos : pos ≤ text.length) (hfuel : text.length - pos < fuel) :
    ∃ stop, (ident fuel).run text pos = .ok (some ((text.drop pos).takeWhile isNameChar), stop) ∧
      pos ≤ stop ∧ stop ≤ text.length ∧ text.drop stop = (text.drop pos).dropWhile isNameChar ∧
      stop = pos + ((text.drop pos).takeWhile isNameChar).length := by
  have hsplit := (List.takeWhile_append_dropWhile (p := isNameChar) (l := text.drop pos)).symm
  refine ⟨_, ?_, Nat.le_add_right _ _, inside_of_drop_append hsplit hpos, drop_of_drop_append hsplit, rfl⟩
  rw [ident, run_here_bind, run_bind_of_found (run_skipWhile hpos hfuel), run_slice hsplit hpos]

end

/-! ## Scans that follow readers -/

/-- From `start` on, with at least `gap` characters in between, the outcome of a scan is what a reader
gives: nothing, or the same thing, and the text goes on as the reader left it. -/
inductive Follows {α : Type} (text : List Char) (start gap : Nat) :
    Except Fault (Option α × Nat) → Option (α × List Char) → Prop
  | refused {stop : Nat} (hle : start ≤ stop) (hin : stop ≤ text.length) :
    Follows text start gap (.ok (none, stop)) none
  | found {a : α} {stop : Nat} {s : List Char} (hle : start + gap ≤ stop) (hs : Level text stop s) :
    Follows text start gap (.ok (some a, stop)) (some (a, s))

namespace Follows

variable {α β : Type} {text : List Char} {start start' gap gap' pos : Nat} {m : Scan α}
  {o : Option (α × List Char)} {result : Except Fault (Option α × Nat)}

theorem mono (h : Follows text start gap result o) (hstart : start' ≤ start)
    (hgap : start' + gap' ≤ start + gap) : Follows text start' gap' result o := by
  cases h with
  | refused hle hin => exact .refused (by omega) hin
  | found hle hs => exact .found (by omega) hs

/-- One scan after another follows one reader after another. -/
theorem bind (h : Follows text start gap (m.run text pos) o) (hstart : start' ≤ start) {next : α → Scan β}
    {f : α × List Char → Option (β × List Char)}
    (hnext : ∀ {a stop s}, start + gap ≤ stop → Level text stop s →
      Follows text start' gap' ((next a).run text stop) (f (a, s))) :
    Follows text start' gap' ((m >>= next).run text pos) (o.bind f) := by
  generalize hrun : m.run text pos = result at h
  cases h with
  | refused hle hin =>
    rw [run_bind_of_refused hrun]
    exact .refused (by omega) hin
  | found hle hs =>
    rw [run_bind_of_found hrun]
    exact hnext hle hs

theorem map (h : Follows text start gap (m.run text pos) o) (f : α → β) :
    Follows text start gap ((m >>= fun a => pure (f a)).run text pos) (o.map fun x => (f x.1, x.2)) := by
  rw [Option.map_eq_bind]
  exact h.bind (Nat.le_refl _) fun hle hs => .found hle hs

/-- Likewise behind a scan that only moves. -/
theorem bind_rest {m : Scan Unit} {o : Option (List Char)}
    (h : Follows text start gap (m.run text pos) (o.map fun r => ((), r))) (hstart : start' ≤ start)
    {next : Unit → Scan β} {f : List Char → Option (β × List Char)}
    (hnext : ∀ {stop s}, start + gap ≤ stop → Level text stop s →
      Follows text start' gap' ((next ()).run text stop) (f s)) :
    Follows text start' gap' ((m >>= next).run text pos) (o.bind f) := by
  have hrest : o.bind f = (o.map fun r => ((), r)).bind fun x => f x.2 := by
    rw [Option.bind_map]
    rfl
  rw [hrest]
  exact h.bind hstart fun hle hs => hnext hle hs

/-- A scan that follows a reader and moves need not be told to move. -/
theorem moving (h : Follows text pos 1 (m.run text pos) o) : Follows text pos 1 (m.moving.run text pos) o := by
  have hsame : o.bind some = o := Option.bind_fun_some o
  rw [Scan.moving, run_here_bind, ← hsame]
  refine h.bind (Nat.le_refl _) fun {a stop s} hle hs => ?_
  rw [run_here_bind, if_pos (by omega)]
  exact .found hle hs

end Follows

section

variable {text s : List Char} {pos fuel depth : Nat} {c open_ close : Char}

/-- A character that must stand there. -/
theorem follows_eat {α : Type} (h : Level text pos s) (hfuel : text.length - pos < fuel) (c : Char) (a : α) :
    Follows text pos 1 ((do if ← eat c fuel then return a else refuse : Scan α).run text pos)
      ((tail? c s).map fun r => (a, r)) := by
  cases ate h hfuel c with
  | no htail hrun hle hstop hdrop =>
    rw [run_bind_of_found hrun, htail]
    exact .refused hle hstop
  | yes htail hrun hlt hstop hback hdrop =>
    rw [run_bind_of_found hrun, htail]
    exact .found hlt (.of_drop hstop hdrop)

/-- A character that is looked for only under a condition. -/
theorem run_eat_if (h : Level text pos s) (hfuel : text.length - pos < fuel) (c : Char) (p : Prop) [Decidable p] :
    (∃ r stop, (if p then tail? c s else none) = some r ∧
      (if p then eat c fuel else pure false).run text pos = .ok (some true, stop) ∧ pos < stop ∧
      stop ≤ text.length ∧ text.drop (stop - 1) = c :: r) ∨
    ∃ stop, (if p then tail? c s else none) = none ∧
      (if p then eat c fuel else pure false).run text pos = .ok (some false, stop) ∧ pos ≤ stop ∧
      Level text stop s := by
  by_cases hp : p
  · simp only [if_pos hp]
    cases ate h hfuel c with
    | yes htail hrun hlt hstop hback hdrop => exact .inl ⟨_, _, htail, hrun, hlt, hstop, hback⟩
    | no htail hrun hle hstop hdrop => exact .inr ⟨_, htail, hrun, hle, .of_trimStart hstop hdrop⟩
  · exact .inr ⟨pos, if_neg hp, by rw [if_neg hp, run_pure], Nat.le_refl _, h⟩

/-- One more behind the character that separates, and those that follow it, or none. -/
theorem follows_further {one : Scan DocType} {more : Scan (List DocType)}
    {one? : List Char → Option (DocType × List Char)} {more? : List Char → Option (List DocType × List Char)}
    (h : Level text pos s) (hfuel : text.length - pos < fuel) (c : Char)
    (hone : ∀ {stop r}, pos < stop → Level text stop r → Follows text stop 1 (one.run text stop) (one? r))
    (hmore : ∀ {stop r}, pos < stop → Level text stop r → Follows text stop 0 (more.run text stop) (more? r)) :
    Follows text pos 0
      ((do if ← eat c fuel then
             let t ← one
             let ts ← more
             return t :: ts
           else return [] : Scan (List DocType)).run text pos)
      (match tail? c s with
        | none => some ([], s)
        | some r => (one? r).bind fun x => (more? x.2).map fun y => (x.1 :: y.1, y.2)) := by
  cases ate h hfuel c with
  | no htail hrun hle hstop hdrop =>
    rw [run_bind_of_found hrun, htail]
    exact .found hle (.of_trimStart hstop hdrop)
  | yes htail hrun hlt hstop hback hdrop =>
    rw [run_bind_of_found hrun, htail, if_pos rfl]
    refine (hone hlt (.of_drop hstop hdrop)).bind (by omega) fun {t stop r} hle hr => ?_
    exact ((hmore (by omega) hr).map fun ts => t :: ts).mono (by omega) (by omega)

/-- With a bracket open, the number of open ones stays above zero until the last one is closed. -/
theorem follows_skipBalanced (hpos : pos ≤ text.length) (hfuel : text.length - pos < fuel)
    (hdepth : 0 < depth) : Follows text pos 1 ((skipBalanced open_ close fuel depth).run text pos)
      ((closed? open_ close depth (text.drop pos)).map fun r => ((), r)) := by
  induction fuel generalizing pos depth with
  | zero => omega
  | succ fuel ih =>
    rw [skipBalanced, run_peek_bind, Nat.add_zero, getElem?_of_drop rfl]
    cases hs : text.drop pos with
    | nil => exact .refused (Nat.le_refl _) hpos
    | cons d s =>
      have hin := inside_of_drop hs
      have hnext : text.drop (pos + 1) = s := drop_of_drop_append (u := [d]) hs
      dsimp only [List.head?_cons]
      rw [run_bind_of_found (run_advance_one hs), closed?_cons, ← hnext]
      by_cases hopen : d = open_
      · rw [if_pos hopen, if_pos hopen]
        exact (ih hin (by omega) (Nat.succ_pos depth)).mono (by omega) (by omega)
      rw [if_neg hopen, if_neg hopen]
      by_cases hclose : d = close
      · rw [if_pos hclose, if_pos hclose, if_neg (Nat.pos_iff_ne_zero.1 hdepth)]
        by_cases hlast : depth ≤ 1
        · rw [if_pos hlast, if_pos (by omega)]
          exact .found (Nat.le_refl _) (.of_drop hin rfl)
        · rw [if_neg hlast, if_neg (by omega)]
          exact (ih hin (by omega) (by omega)).mono (by omega) (by omega)
      · rw [if_neg hclose, if_neg hclose]
        exact (ih hin (by omega) hdepth).mono (by omega) (by omega)

/-- A scan that starts at the bracket that opens has one open when it gets to another character. -/
theorem follows_skipBalanced_open (hs : text.drop pos = open_ :: s) (hfuel : text.length - pos < fuel) :
    Follows text pos 1 ((skipBalanced open_ close fuel 0).run text pos)
      ((closed? open_ close 1 s).map fun r => ((), r)) := by
  obtain ⟨fuel, rfl⟩ : ∃ n, fuel = n + 1 := ⟨fuel - 1, by omega⟩
  have hin := inside_of_drop hs
  have hnext : text.drop (pos + 1) = s := drop_of_drop_append (u := [open_]) hs
  rw [skipBalanced, run_peek_bind, Nat.add_zero, getElem?_of_drop hs]
  dsimp only [List.head?_cons]
  rw [run_bind_of_found (run_advance_one hs), if_pos rfl, ← hnext]
  exact (follows_skipBalanced hin (by omega) (Nat.succ_pos 0)).mono (by omega) (by omega)

theorem run_dotted_succ (front : List Char) (h : text.drop pos = s) :
    (dotted (fuel + 1) front).run text pos =
      (if s.head? = some '.' ∧ s[1]?.any isNameStart = true then do
          advance 1
          let more ← ident fuel
          dotted fuel (front ++ '.' :: more)
        else pure front).run text pos := by
  rw [dotted, run_peek_bind, run_peek_bind, Nat.add_zero, getElem?_of_drop h, ← h, List.getElem?_drop]

/-- Behind an identifier, the dots with identifiers behind them are passed. -/
theorem run_dotted {front : List Char} (hpos : pos ≤ text.length)
    (hdrop : text.drop pos = s.dropWhile isNameChar) (hfuel : text.length - pos < fuel) :
    ∃ tail stop, (dottedName s).1 = s.takeWhile isNameChar ++ tail ∧
      (dotted fuel front).run text pos = .ok (some (front ++ tail), stop) ∧ pos ≤ stop ∧
      stop ≤ text.length ∧ text.drop stop = (dottedName s).2 := by
  fun_induction dottedName s generalizing pos fuel front with
  | case1 s c r h hc more rest heq ih =>
    obtain ⟨fuel, rfl⟩ : ∃ n, fuel = n + 1 := ⟨fuel - 1, by omega⟩
    rw [h] at hdrop
    have hin := inside_of_drop hdrop
    have hnext : text.drop (pos + 1) = c :: r := drop_of_drop_append (u := ['.']) hdrop
    have hfuel' : text.length - (pos + 1) < fuel := by omega
    obtain ⟨mid, hident, hle, hmid, hdrop', -⟩ := run_ident hin hfuel'
    rw [hnext] at hident hdrop'
    have hfuel'' : text.length - mid < fuel := by omega
    obtain ⟨tail, stop, hname, hrun, hle', hstop, hrest⟩ := ih hmid hdrop' hfuel''
    rw [heq] at hname hrest
    dsimp only at hname
    refine ⟨'.' :: more, stop, rfl, ?_, by omega, hstop, hrest⟩
    rw [run_dotted_succ front hdrop, if_pos ⟨rfl, by simpa using hc⟩,
      run_bind_of_found (run_advance_one hdrop), run_bind_of_found hident, hrun, List.append_assoc,
      List.cons_append, hname]
  | case2 s c r h hc =>
    obtain ⟨fuel, rfl⟩ : ∃ n, fuel = n + 1 := ⟨fuel - 1, by omega⟩
    rw [h] at hdrop
    refine ⟨[], pos, (List.append_nil _).symm, ?_, Nat.le_refl _, hpos, hdrop⟩
    rw [run_dotted_succ front hdrop, if_neg (by simp [hc]), List.append_nil, run_pure]
  | case3 s hnot =>
    obtain ⟨fuel, rfl⟩ : ∃ n, fuel = n + 1 := ⟨fuel - 1, by omega⟩
    refine ⟨[], pos, (List.append_nil _).symm, ?_, Nat.le_refl _, hpos, hdrop⟩
    have hnone : ¬ ((s.dropWhile isNameChar).head? = some '.' ∧
        (s.dropWhile isNameChar)[1]?.any isNameStart = true) := by
      rintro ⟨hdot, hname⟩
      obtain ⟨rest, hrest⟩ := List.head?_eq_some_iff.1 hdot
      cases rest with
      | nil => simp [hrest] at hname
      | cons c r => exact hnot c r hrest
    rw [run_dotted_succ front hdrop, if_neg hnone, List.append_nil, run_pure]

/-- A name where one may start is not empty. -/
theorem run_fullName (hs : text.drop pos = c :: s) (hc : isNameChar c = true)
    (hfuel : text.length - pos < fuel) :
    ∃ n r stop, dottedName (c :: s) = (c :: n, r) ∧ (fullName fuel).run text pos = .ok (some (c :: n), stop) ∧
      pos < stop ∧ stop ≤ text.length ∧ text.drop stop = r := by
  have hin := inside_of_drop hs
  obtain ⟨mid, hident, hle, hmid, hdrop, hmove⟩ := run_ident (by omega) hfuel
  rw [hs] at hident hdrop hmove
  have hfuel' : text.length - mid < fuel := by omega
  obtain ⟨tail, stop, hname, hrun, hle', hstop, hrest⟩ := run_dotted hmid hdrop hfuel'
  rw [List.takeWhile_cons_of_pos hc] at hident hname hmove
  rw [List.length_cons] at hmove
  refine ⟨s.takeWhile isNameChar ++ tail, (dottedName (c :: s)).2, stop, Prod.ext hname rfl, ?_, by omega,
    hstop, hrest⟩
  rw [fullName, run_bind_of_found hident, hrun, List.cons_append]

end

/-! ## Parts of types -/

section

variable {text s r lead : List Char} {pos fuel : Nat} {c : Char}

theorem isDelimiter_head? (s : List Char) : isDelimiter s.head? = endsUnknown s := by
  cases s <;> rfl

theorem isPrefixOf_eq (lead s : List Char) : lead.isPrefixOf s = (behind? lead s).isSome := by
  rw [behind?_eq, Bool.eq_iff_iff, List.isPrefixOf_iff_prefix]
  split <;> simp_all

theorem suffixed_eq_behind? (t : DocType) (s : List Char) : suffixed t s =
    match behind? ['[', ']'] (trimStart s) with
    | some r => suffixed (.application (.name "Array") [t]) r
    | none =>
      match tail? '=' s with
      | some r => suffixed (.optional t) r
      | none => (t, s) := by
  rw [suffixed_eq]
  split
  · rename_i r h
    rw [h, show '[' :: ']' :: r = ['[', ']'] ++ r from rfl, behind?_self]
  · rename_i r h
    rw [tail?_eq_some_iff.2 h, h, behind?_cons_of_ne (by decide)]
  · rename_i harray hoptional
    have hlead : behind? ['[', ']'] (trimStart s) = none :=
      Option.eq_none_iff_forall_ne_some.2 fun r h => harray r (eq_of_behind? h)
    have htail : tail? '=' s = none :=
      Option.eq_none_iff_forall_ne_some.2 fun r h => hoptional r (tail?_eq_some_iff.1 h)
    rw [hlead, htail]

/-- No blank is passed on the way to the quote that closes. -/
theorem tail?_dropWhile_ne (hc : isBlank c = false) (s : List Char) :
    tail? c (s.dropWhile (· != c)) = (s.dropWhile (· != c)).tail? := by
  cases hs : s.dropWhile (· != c) with
  | nil => rfl
  | cons d r =>
    have hd : (d != c) = false := by
      have := List.head?_dropWhile_not (· != c) s
      simpa [hs] using this
    obtain rfl : d = c := by simpa using hd
    exact tail?_eq_some_iff.2 (trimStart_eq_self (by simpa using hc))

theorem follows_quoted (hs : text.drop pos = c :: s) (hc : isBlank c = false)
    (hfuel : text.length - pos < fuel) : Follows text pos 1 ((quoted c fuel).run text pos)
      ((s.dropWhile (· != c)).tail?.map fun r => (.stringLiteral (String.ofList (s.takeWhile (· != c))), r)) := by
  have hin := inside_of_drop hs
  have hnext : text.drop (pos + 1) = s := drop_of_drop_append (u := [c]) hs
  have hsplit : text.drop (pos + 1) = s.takeWhile (· != c) ++ s.dropWhile (· != c) := by
    rw [hnext, List.takeWhile_append_dropWhile]
  have hskip : (skipWhile (· != c) fuel).run text (pos + 1) = _ := run_skipWhile hin (by omega)
  rw [hnext] at hskip
  rw [quoted, run_bind_of_found (run_advance_one hs), run_here_bind, run_bind_of_found hskip,
    run_bind_of_found (run_slice hsplit hin), ← tail?_dropWhile_ne hc]
  have hlevel := Level.of_drop (inside_of_drop_append hsplit hin) (drop_of_drop_append hsplit)
  have hfuel' : text.length - (pos + 1 + (s.takeWhile (· != c)).length) < fuel := by omega
  exact (follows_eat hlevel hfuel' c _).mono (by omega) (by omega)

theorem follows_table (hs : text.drop pos = "db:/".toList ++ s) (hpos : pos ≤ text.length)
    (hfuel : text.length - pos < fuel) : Follows text pos 1 ((table fuel).run text pos)
      (some (.stringLiteral (String.ofList ("db:/".toList ++ s.takeWhile isTableChar)),
        s.dropWhile isTableChar)) := by
  have hin : pos + 4 ≤ text.length := inside_of_drop_append hs hpos
  have hnext : text.drop (pos + 4) = s := drop_of_drop_append hs
  have hadvance : (advance 4).run text pos = .ok (some (), pos + 4) := run_advance hs hpos
  have hskip : (skipWhile isTableChar fuel).run text (pos + 4) = _ := run_skipWhile hin (by omega)
  rw [hnext] at hskip
  have hsplit : text.drop pos = ("db:/".toList ++ s.takeWhile isTableChar) ++ s.dropWhile isTableChar := by
    rw [List.append_assoc, List.takeWhile_append_dropWhile, hs]
  have hslice := run_slice hsplit hpos
  have hstop := inside_of_drop_append hsplit hpos
  have hdrop := drop_of_drop_append hsplit
  have hlength : pos + 4 + (s.takeWhile isTableChar).length =
      pos + ("db:/".toList ++ s.takeWhile isTableChar).length := by
    rw [List.length_append, ← Nat.add_assoc]
    rfl
  rw [hlength] at hskip
  rw [table, run_here_bind, run_bind_of_found hadvance, run_bind_of_found hskip, run_bind_of_found hslice]
  exact .found (by omega) (.of_drop hstop hdrop)

theorem follows_questioned {type : Scan DocType} (hs : Level text pos s) (hfuel : text.length - pos < fuel)
    (htype : ∀ {stop r}, pos ≤ stop → Level text stop r →
      Follows text stop 1 (type.run text stop) (unary? r)) :
    Follows text pos 0 ((questioned type fuel).run text pos)
      (if endsUnknown (trimStart s) then some (.unknown, s)
        else (unary? s).map fun x => (.nullable x.1, x.2)) := by
  obtain ⟨stop, hskip, hle, hstop, hdrop⟩ := run_skipBlanks hs hfuel
  have hlevel : Level text stop s := .of_trimStart hstop hdrop
  rw [questioned, run_bind_of_found hskip, run_peek_bind, Nat.add_zero, getElem?_of_drop hdrop,
    isDelimiter_head?]
  by_cases hlone : endsUnknown (trimStart s) = true
  · rw [if_pos hlone, if_pos hlone]
    exact .found hle hlevel
  · rw [if_neg hlone, if_neg hlone]
    exact ((htype hle hlevel).map DocType.nullable).mono hle (by omega)

/-- The step back is to the bracket that was just passed, so it stays in the text and a bracket is open
from there on. -/
theorem follows_parameters {returned : Scan DocType} (hs : text.drop (pos - 1) = '(' :: s) (hpos : 1 ≤ pos)
    (hfuel : text.length - (pos - 1) < fuel)
    (hreturned : ∀ {stop r}, pos < stop → Level text stop r →
      Follows text stop 1 (returned.run text stop) (unary? r)) :
    Follows text (pos - 1) 1 ((parameters returned fuel).run text pos)
      ((closed? '(' ')' 1 s).bind fun r =>
        match tail? ':' r with
        | none => some (.function, r)
        | some r' => (unary? r').map fun x => (.function, x.2)) := by
  have hretreat : retreat.run text pos = .ok (some (), pos - 1) := if_pos hpos
  have hin := inside_of_drop hs
  rw [parameters, run_bind_of_found hretreat]
  refine (follows_skipBalanced_open hs hfuel).bind_rest (Nat.le_refl _) fun {stop r} hle hr => ?_
  have hfuel' : text.length - stop < fuel := by omega
  cases ate hr hfuel' ':' with
  | no htail hrun hle' hstop hdrop =>
    rw [run_bind_of_found hrun, htail]
    exact .found (by omega) (.of_trimStart hstop hdrop)
  | yes htail hrun hlt hstop hback hdrop =>
    rw [run_bind_of_found hrun, htail]
    exact ((hreturned (by omega) (.of_drop hstop hdrop)).map fun _ => DocType.function).mono (by omega)
      (by omega)

theorem follows_arguments {list : Scan (List DocType)} (hs : Level text pos s)
    (hfuel : text.length - pos < fuel) (name : List Char)
    (hlist : ∀ {stop r}, pos < stop → Level text stop r →
      Follows text stop 1 (list.run text stop) (list? '>' r)) :
    Follows text pos 0 ((arguments name list fuel).run text pos)
      (match angle? s with
        | none => some (.name (String.ofList name), s)
        | some r => (list? '>' r).map fun x => (.application (.name (String.ofList name)) x.1, x.2)) := by
  obtain ⟨start, hskip, hle, hin, hdrop⟩ := run_skipBlanks hs hfuel
  rw [arguments, run_bind_of_found hskip, run_startsWith_bind, hdrop, isPrefixOf_eq, angle?_eq]
  cases hlead : behind? ['.', '<'] (trimStart s) with
  | some r =>
    obtain ⟨hadvance, hlevel⟩ : (advance 2).run text start = .ok (some (), start + 2) ∧
      Level text (start + 2) r := run_advance_behind hin hdrop hlead
    rw [Option.isSome_some, if_pos rfl, Option.some_or, run_bind_of_found hadvance]
    exact ((hlist (by omega) hlevel).map _).mono (by omega) (by omega)
  | none =>
    rw [Option.isSome_none, if_neg Bool.false_ne_true, Option.none_or, run_peek_bind, Nat.add_zero,
      getElem?_of_drop hdrop]
    cases htail : tail? '<' s with
    | some r =>
      rw [tail?_eq_some_iff.1 htail] at hdrop
      rw [if_pos (head?_trimStart_eq_iff.2 ⟨r, htail⟩), run_bind_of_found (run_advance_one hdrop)]
      exact ((hlist (by omega) (.next hdrop)).map _).mono (by omega) (by omega)
    | none =>
      rw [if_neg (by simp [head?_trimStart_eq_iff, htail])]
      exact .found hle (.of_trimStart hin hdrop)

end

/-! ## Types -/

/-- With this fuel, every scan for types follows its reader, from wherever in the text it starts. A scan
needs eight for each character that is left, and its place in the order in which scans call each other
without moving. -/
structure Bounded (text : List Char) (fuel : Nat) : Prop where
  union : ∀ {pos s}, Level text pos s → 8 * (text.length - pos) + 6 ≤ fuel →
    Follows text pos 1 ((union fuel).run text pos) (union? s)
  members : ∀ {pos s}, Level text pos s → 8 * (text.length - pos) + 2 ≤ fuel →
    Follows text pos 0 ((members fuel).run text pos) (members? s)
  unary : ∀ {pos s}, Level text pos s → 8 * (text.length - pos) + 5 ≤ fuel →
    Follows text pos 1 ((unary fuel).run text pos) (unary? s)
  posted : ∀ {pos s}, Level text pos s → 8 * (text.length - pos) + 4 ≤ fuel →
    Follows text pos 1 ((posted fuel).run text pos) (posted? s)
  marks : ∀ {pos s} (t : DocType), Level text pos s → 8 * (text.length - pos) + 2 ≤ fuel →
    Follows text pos 0 ((marks fuel t).run text pos) (some (suffixed t s))
  primary : ∀ {pos s}, Level text pos s → 8 * (text.length - pos) + 3 ≤ fuel →
    Follows text pos 1 ((primary fuel).run text pos) (primary? s)
  named : ∀ {pos c s}, text.drop pos = c :: s → isNameStart c = true →
    8 * (text.length - pos) + 2 ≤ fuel → Follows text pos 1 ((named fuel).run text pos) (named? (c :: s))
  list : ∀ {pos s} (close : Char), Level text pos s → 8 * (text.length - pos) + 7 ≤ fuel →
    Follows text pos 1 ((list close fuel).run text pos) (list? close s)
  items : ∀ {pos s}, Level text pos s → 8 * (text.length - pos) + 2 ≤ fuel →
    Follows text pos 0 ((items fuel).run text pos) (items? s)

namespace Bounded

variable {text s : List Char} {pos fuel : Nat} (ih : Bounded text fuel)

include ih

theorem union_succ (hs : Level text pos s) (hfuel : 8 * (text.length - pos) + 6 ≤ fuel + 1) :
    Follows text pos 1 ((Scan.union (fuel + 1)).run text pos) (union? s) := by
  have hin := hs.inside
  rw [Scan.union, union?_eq]
  refine ((ih.unary hs (by omega)).bind (Nat.le_refl _) fun {t stop r} hle hr => ?_).moving
  exact ((ih.members hr (by omega)).map fun ts => if ts.isEmpty then t else .union (t :: ts)).mono
    (by omega) (by omega)

theorem members_succ (hs : Level text pos s) (hfuel : 8 * (text.length - pos) + 2 ≤ fuel + 1) :
    Follows text pos 0 ((Scan.members (fuel + 1)).run text pos) (members? s) := by
  have hin := hs.inside
  rw [Scan.members, members?_eq]
  refine follows_further hs (by omega) '|' (fun hlt hr => ih.unary hr ?_) fun hlt hr => ih.members hr ?_
  all_goals
    have hstop := hr.inside
    omega

theorem items_succ (hs : Level text pos s) (hfuel : 8 * (text.length - pos) + 2 ≤ fuel + 1) :
    Follows text pos 0 ((Scan.items (fuel + 1)).run text pos) (items? s) := by
  have hin := hs.inside
  rw [Scan.items, items?_eq]
  refine follows_further hs (by omega) ',' (fun hlt hr => ih.union hr ?_) fun hlt hr => ih.items hr ?_
  all_goals
    have hstop := hr.inside
    omega

theorem list_succ (close : Char) (hs : Level text pos s)
    (hfuel : 8 * (text.length - pos) + 7 ≤ fuel + 1) :
    Follows text pos 1 ((Scan.list close (fuel + 1)).run text pos) (list? close s) := by
  have hin := hs.inside
  rw [Scan.list, list?_eq]
  refine ((ih.union hs (by omega)).bind (Nat.le_refl _) fun {t stop r} hle hr => ?_).moving
  refine (ih.items hr (by omega)).bind (by omega) fun {ts stop' r'} hle' hr' => ?_
  exact (follows_eat hr' (by omega) close (t :: ts)).mono (by omega) (by omega)

theorem unary_succ (hs : Level text pos s) (hfuel : 8 * (text.length - pos) + 5 ≤ fuel + 1) :
    Follows text pos 1 ((Scan.unary (fuel + 1)).run text pos) (unary? s) := by
  have hin := hs.inside
  have hfuel' : text.length - pos < fuel := by omega
  obtain ⟨start, hskip, hle, hstart, hdrop⟩ := run_skipBlanks hs hfuel'
  rw [Scan.unary, unary?_eq]
  refine Follows.moving ?_
  rw [run_bind_of_found hskip]
  have hlevel : Level text start s := .of_trimStart hstart hdrop
  have hfuel' : text.length - start < fuel := by omega
  cases ate hlevel hfuel' '?' with
  | @yes r stop htail hrun hlt hstop hback hdrop =>
    rw [run_bind_of_found hrun, htail, if_pos rfl]
    refine (follows_questioned (.of_drop hstop hdrop) (by omega) fun {stop' s'} hle' hs' =>
      ih.unary hs' ?_).mono (by omega) (by omega)
    omega
  | @no mid htail hrun hle' hmid hdrop =>
    rw [run_bind_of_found hrun, htail, if_neg Bool.false_ne_true]
    dsimp only
    have hlevel : Level text mid s := .of_trimStart hmid hdrop
    have hfuel' : text.length - mid < fuel := by omega
    cases ate hlevel hfuel' '!' with
    | @yes r stop htail' hrun' hlt hstop hback hdrop =>
      rw [run_bind_of_found hrun', htail', if_pos rfl]
      exact (ih.unary (.of_drop hstop hdrop) (by omega)).mono (by omega) (by omega)
    | @no stop htail' hrun' hle'' hstop hdrop =>
      rw [run_bind_of_found hrun', htail', if_neg Bool.false_ne_true, run_startsWith_bind, hdrop, isPrefixOf_eq]
      dsimp only
      cases hlead : behind? ['.', '.', '.'] (trimStart s) with
      | some r =>
        obtain ⟨hadvance, hr⟩ : (advance 3).run text stop = .ok (some (), stop + 3) ∧
          Level text (stop + 3) r := run_advance_behind hstop hdrop hlead
        have hlast := hr.inside
        rw [Option.isSome_some, if_pos rfl, run_bind_of_found hadvance]
        exact (ih.unary hr (by omega)).mono (by omega) (by omega)
      | none =>
        rw [Option.isSome_none, if_neg Bool.false_ne_true]
        exact (ih.posted (.of_trimStart hstop hdrop) (by omega)).mono (by omega) (by omega)

theorem posted_succ (hs : Level text pos s) (hfuel : 8 * (text.length - pos) + 4 ≤ fuel + 1) :
    Follows text pos 1 ((Scan.posted (fuel + 1)).run text pos) (posted? s) := by
  have hin := hs.inside
  rw [Scan.posted, posted?, Option.map_eq_bind]
  refine ((ih.primary hs (by omega)).bind (Nat.le_refl _) fun {t stop r} hle hr => ?_).moving
  exact (ih.marks t hr (by omega)).mono (by omega) (by omega)

theorem marks_succ (t : DocType) (hs : Level text pos s)
    (hfuel : 8 * (text.length - pos) + 2 ≤ fuel + 1) :
    Follows text pos 0 ((Scan.marks (fuel + 1) t).run text pos) (some (suffixed t s)) := by
  have hin := hs.inside
  have hfuel' : text.length - pos < fuel := by omega
  obtain ⟨start, hskip, hle, hstart, hdrop⟩ := run_skipBlanks hs hfuel'
  rw [Scan.marks, run_bind_of_found hskip, run_startsWith_bind, hdrop, isPrefixOf_eq, suffixed_eq_behind?]
  cases hlead : behind? ['[', ']'] (trimStart s) with
  | some r =>
    obtain ⟨hadvance, hlevel⟩ : (advance 2).run text start = .ok (some (), start + 2) ∧
      Level text (start + 2) r := run_advance_behind hstart hdrop hlead
    have hlast := hlevel.inside
    rw [Option.isSome_some, if_pos rfl, run_bind_of_found hadvance]
    exact (ih.marks _ hlevel (by omega)).mono (by omega) (by omega)
  | none =>
    rw [Option.isSome_none, if_neg Bool.false_ne_true, run_peek_bind, Nat.add_zero, getElem?_of_drop hdrop]
    cases htail : tail? '=' s with
    | some r =>
      rw [tail?_eq_some_iff.1 htail] at hdrop
      have hlast := inside_of_drop hdrop
      rw [if_pos (head?_trimStart_eq_iff.2 ⟨r, htail⟩), run_bind_of_found (run_advance_one hdrop)]
      exact (ih.marks _ (.next hdrop) (by omega)).mono (by omega) (by omega)
    | none =>
      rw [if_neg (by simp [head?_trimStart_eq_iff, htail])]
      exact .found hle (.of_trimStart hstart hdrop)

theorem primary_succ (hs : Level text pos s) (hfuel : 8 * (text.length - pos) + 3 ≤ fuel + 1) :
    Follows text pos 1 ((Scan.primary (fuel + 1)).run text pos) (primary? s) := by
  have hin := hs.inside
  have hfuel' : text.length - pos < fuel := by omega
  obtain ⟨start, hskip, hle, hstart, hdrop⟩ := run_skipBlanks hs hfuel'
  rw [Scan.primary, primary?_eq]
  refine Follows.moving ?_
  rw [run_bind_of_found hskip, run_peek_bind, Nat.add_zero, getElem?_of_drop hdrop]
  cases htrim : trimStart s with
  | nil => exact .refused hle hstart
  | cons c r =>
    rw [htrim] at hdrop
    dsimp only [List.head?_cons]
    have hin' := inside_of_drop hdrop
    have hnext : Level text (start + 1) r := .next hdrop
    have hfuel' : text.length - start < fuel := by omega
    -- the first character decides, in the order in which the scan asks for it
    by_cases hround : c = '('
    · rw [if_pos hround, if_pos hround, run_bind_of_found (run_advance_one hdrop)]
      refine (ih.union hnext (by omega)).bind (by omega) fun {t stop r'} hle' hr' => ?_
      exact (follows_eat hr' (by omega) ')' t).mono (by omega) (by omega)
    rw [if_neg hround, if_neg hround]
    by_cases hstar : c = '*'
    · rw [if_pos hstar, if_pos hstar, run_bind_of_found (run_advance_one hdrop)]
      exact .found (by omega) hnext
    rw [if_neg hstar, if_neg hstar]
    by_cases hquote : c = '\x22' ∨ c = '\x27'
    · have hblank : isBlank c = false := by
        obtain rfl | rfl := hquote <;> decide
      rw [if_pos hquote, if_pos hquote]
      have hquoted := follows_quoted hdrop hblank hfuel'
      cases hrest : r.dropWhile (· != c) with
      | nil =>
        rw [hrest] at hquoted
        exact hquoted.mono hle (by omega)
      | cons d r' =>
        rw [hrest] at hquoted
        exact hquoted.mono hle (by omega)
    rw [if_neg hquote, if_neg hquote]
    by_cases hcurly : c = '{'
    · subst hcurly
      rw [if_pos rfl, if_pos rfl, Option.map_eq_bind]
      exact (follows_skipBalanced_open hdrop hfuel').bind_rest hle fun hle' hr => .found (by omega) hr
    rw [if_neg hcurly, if_neg hcurly]
    by_cases hsquare : c = '['
    · rw [if_pos hsquare, if_pos hsquare, run_bind_of_found (run_advance_one hdrop)]
      exact ((ih.list ']' hnext (by omega)).map DocType.array).mono (by omega) (by omega)
    rw [if_neg hsquare, if_neg hsquare, run_startsWith_bind, hdrop, isPrefixOf_eq]
    cases hlead : behind? "db:/".toList (c :: r) with
    | some r' =>
      rw [Option.isSome_some, if_pos rfl]
      exact (follows_table (hdrop.trans (eq_of_behind? hlead)) hstart hfuel').mono hle (by omega)
    | none =>
      rw [Option.isSome_none, if_neg Bool.false_ne_true]
      dsimp only
      by_cases hname : isNameStart c = true
      · rw [if_pos hname, if_pos hname]
        exact (ih.named hdrop hname (by omega)).mono hle (by omega)
      · rw [if_neg hname, if_neg hname]
        exact .refused hle hstart

theorem named_succ {c : Char} (hs : text.drop pos = c :: s) (hc : isNameStart c = true)
    (hfuel : 8 * (text.length - pos) + 2 ≤ fuel + 1) :
    Follows text pos 1 ((Scan.named (fuel + 1)).run text pos) (named? (c :: s)) := by
  have hin := inside_of_drop hs
  have hfuel' : text.length - pos < fuel := by omega
  obtain ⟨n, r, start, hname, hrun, hlt, hstart, hdrop⟩ :=
    run_fullName hs (isNameChar_of_isNameStart hc) hfuel'
  rw [Scan.named, named?_eq, hname]
  refine Follows.moving ?_
  rw [run_bind_of_found hrun]
  dsimp only
  have hr := Level.of_drop hstart hdrop
  have hfuel' : text.length - start < fuel := by omega
  -- behind `function` the bracket was passed already; elsewhere at most blanks were
  obtain ⟨r', stop, htail, hopen, hlt', hstop, hback⟩ | ⟨stop, htail, hopen, hle, hr⟩ :=
    run_eat_if hr hfuel' '(' (c :: n = "function".toList)
  · rw [run_bind_of_found hopen, htail, if_pos rfl]
    refine (follows_parameters hback (by omega) (by omega) fun {stop' s'} hlt hs' => ih.unary hs' ?_).mono
      (by omega) (by omega)
    have hin' := hs'.inside
    omega
  · rw [run_bind_of_found hopen, htail, if_neg Bool.false_ne_true]
    refine (follows_arguments hr (by omega) (c :: n) fun {stop' s'} hlt hs' => ih.list '>' hs' ?_).mono
      (by omega) (by omega)
    have hin' := hs'.inside
    omega

end Bounded

theorem bounded (text : List Char) (fuel : Nat) : Bounded text fuel := by
  induction fuel with
  | zero =>
    -- without fuel no bound holds
    constructor <;> intros <;> omega
  | succ fuel ih =>
    exact {
      union := ih.union_succ
      members := ih.members_succ
      unary := ih.unary_succ
      posted := ih.posted_succ
      marks := ih.marks_succ
      primary := ih.primary_succ
      named := ih.named_succ
      list := ih.list_succ
      items := ih.items_succ }

/-- From this position the scan has no fault and ends in the text, further on if it finds something. -/
def Advances {α : Type} (m : Scan α) (text : List Char) (pos : Nat) : Prop :=
  ∃ found stop, m.run text pos = .ok (found, stop) ∧ pos ≤ stop ∧ stop ≤ text.length ∧
    (found.isSome = true → pos < stop)

theorem Follows.advances {α : Type} {m : Scan α} {text : List Char} {pos : Nat} {o : Option (α × List Char)}
    (h : Follows text pos 1 (m.run text pos) o) : m.Advances text pos := by
  generalize hrun : m.run text pos = result at h
  cases h with
  | refused hle hin => exact ⟨_, _, hrun, hle, hin, fun hfound => Bool.noConfusion hfound⟩
  | found hle hs => exact ⟨_, _, hrun, by omega, hs.inside, fun _ => hle⟩

theorem run_whole (expr : String) {fuel : Nat} (hfuel : 8 * (expr.toList.length + 1) ≤ fuel) :
    ∃ stop ≤ expr.toList.length, (whole fuel).run expr.toList 0 = .ok (parse? expr, stop) := by
  rw [parse?_eq]
  generalize expr.toList = text at hfuel ⊢
  have hunion := (bounded text fuel).union (.of_drop (Nat.zero_le _) List.drop_zero) (by omega)
  generalize union? text = o, hrun : (union fuel).run text 0 = result at hunion
  cases hunion with
  | refused hle hin => exact ⟨_, hin, run_bind_of_refused hrun _⟩
  | found hle hs =>
    rename_i t mid s
    have hfuel' : text.length - mid < fuel := by omega
    obtain ⟨stop, hskip, -, hstop, hdrop⟩ := run_skipBlanks hs hfuel'
    have hend : decide (text.length ≤ stop) = (trimStart s).isEmpty := by
      rw [← hdrop, Bool.eq_iff_iff, decide_eq_true_iff, List.isEmpty_iff, List.drop_eq_nil_iff]
    refine ⟨stop, hstop, ?_⟩
    rw [whole, run_bind_of_found hrun, run_bind_of_found hskip, run_atEnd_bind, hend]
    dsimp only [Option.bind_some]
    split <;> rfl

end Scan

/-- Reading a type expression with a position needs calls and rounds of loops only in proportion to the
length of the text. It never leaves the text, counts below zero or cuts out a slice the wrong way round,
and finds what `parse?` finds. Whatever position of the text they start from, the scans for types end in
the text, and further on if they find something; the scan for a name does where a name may start, which
is where it is called. -/
theorem scan_advances_in_bounds (expr : String) (fuel : Nat) (hfuel : 8 * (expr.toList.length + 1) ≤ fuel) :
    (∃ stop ≤ expr.toList.length, (Scan.whole fuel).run expr.toList 0 = .ok (parse? expr, stop)) ∧
    ∀ pos ≤ expr.toList.length,
      (Scan.union fuel).Advances expr.toList pos ∧ (Scan.unary fuel).Advances expr.toList pos ∧
      (Scan.posted fuel).Advances expr.toList pos ∧ (Scan.primary fuel).Advances expr.toList pos ∧
      (∀ close, (Scan.list close fuel).Advances expr.toList pos) ∧
      ((expr.toList[pos]?).any isNameStart = true → (Scan.named fuel).Advances expr.toList pos) := by
  refine ⟨Scan.run_whole expr hfuel, fun pos hpos => ?_⟩
  have hlevel : Level expr.toList pos _ := .of_drop hpos rfl
  have hbounded := Scan.bounded expr.toList fuel
  refine ⟨(hbounded.union hlevel (by omega)).advances, (hbounded.unary hlevel (by omega)).advances,
    (hbounded.posted hlevel (by omega)).advances, (hbounded.primary hlevel (by omega)).advances,
    fun close => (hbounded.list close hlevel (by omega)).advances, fun hname => ?_⟩
  cases hs : expr.toList.drop pos with
  | nil =>
    rw [getElem?_of_drop hs] at hname
    cases hname
  | cons c s =>
    rw [getElem?_of_drop hs] at hname
    exact (hbounded.named hs hname (by omega)).advances

/-- A function type whose parameters do not end. -/
theorem unclosed_function_scanned :
    8 * ("function(a".toList.length + 1) ≤ 88 ∧ ("function(a".toList[0]?).any isNameStart = true ∧
    (∃ stop ≤ "function(a".toList.length,
      (Scan.whole 88).run "function(a".toList 0 = .ok (parse? "function(a", stop)) ∧
    (Scan.named 88).Advances "function(a".toList 0 ∧ (Scan.list '>' 88).Advances "function(a".toList 10 :=
  have h := scan_advances_in_bounds "function(a" 88 (by decide)
  ⟨by decide, by decide, h.1, (h.2 0 (by decide)).2.2.2.2.2 (by decide), (h.2 10 (by decide)).2.2.2.2.1 '>'⟩

end ScriptAtlas.DocType
