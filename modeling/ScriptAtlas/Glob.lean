/-
Patterns for paths, matched byte by byte. `*` takes any bytes but a slash and
`?` takes one, `**` between slashes or at the end takes any bytes, `[a-z]`
takes one byte of the ranges and `[!a-z]` one outside, `{a,b}` takes one of
the alternatives, a backslash takes the next byte for itself, and `!` in
front turns the answer around.

The matcher does not try everything. It remembers the last star and the last
star that may cross a slash, goes on from there when it is stuck, and takes
of the alternatives in braces the one that reaches furthest, for good.
-/

namespace ScriptAtlas.Glob

/-- Bytes, each as the character of that number. -/
abbrev Text := Array Char

/-- The bytes of a text. -/
def textOf (s : String) : Text := (s.toUTF8.toList.map fun b => Char.ofNat b.toNat).toArray

/-- How far the pattern and the path have been read. -/
structure Place where
  glob : Nat := 0
  path : Nat := 0
  deriving DecidableEq, Repr, Inhabited

/-- Where the matcher stands, and where it goes on when it is stuck: at the last star, and at the
last star that crosses slashes. A place at the start of the path says that there is none. -/
structure State where
  here : Place := {}
  star : Place := {}
  deepStar : Place := {}
  deriving DecidableEq, Repr, Inhabited

/-- A search: the state, the states at the braces that are open, innermost first, and how far in
the path an alternative has come. -/
structure Search where
  state : State := {}
  braces : List State := []
  longest : Nat := 0
  deriving DecidableEq, Repr, Inhabited

/-- What an attempt to go on comes to. A stuck search says how far it has read the pattern. -/
inductive Attempt where
  | moved (search : Search)
  | stuck (glob : Nat)
  | invalid
  deriving DecidableEq, Repr

/-- How a search ends. -/
inductive Verdict where
  | matched
  | unmatched
  | invalid
  deriving DecidableEq, Repr

/-! ## Reading the pattern -/

/-- The byte that a backslash and a byte stand for. -/
def escaped : Char → Char
  | 'b' => '\x08'
  | 'n' => '\n'
  | 'r' => '\r'
  | 't' => '\t'
  | c => c

/-- The byte at the start of a pattern, and what follows. A backslash at the end is none. -/
def literal? : List Char → Option (Char × List Char)
  | [] => none
  | '\\' :: [] => none
  | '\\' :: c :: rest => some (escaped c, rest)
  | c :: rest => some (c, rest)

theorem length_of_literal? {s rest : List Char} {c : Char} (h : literal? s = some (c, rest)) :
    rest.length < s.length := by
  unfold literal? at h
  split at h
  · cases h
  · cases h
  · cases h
    simp only [List.length_cons]
    omega
  · cases h
    simp only [List.length_cons]
    omega

/-- One range of a class. -/
def range? (s : List Char) : Option ((Char × Char) × List Char) :=
  match literal? s with
  | none => none
  | some (low, '-' :: high :: rest) =>
    if high = ']' then some ((low, low), '-' :: high :: rest)
    else (literal? (high :: rest)).map fun (top, rest) => ((low, top), rest)
  | some (low, rest) => some ((low, low), rest)

theorem length_of_range? {s rest : List Char} {r : Char × Char} (h : range? s = some (r, rest)) :
    rest.length < s.length := by
  unfold range? at h
  split at h
  · cases h
  · rename_i found
    have first := length_of_literal? found
    split at h
    · simp only [Option.some.injEq, Prod.mk.injEq] at h
      obtain ⟨_, rfl⟩ := h
      exact first
    · obtain ⟨⟨top, after⟩, second, pair⟩ := Option.map_eq_some_iff.1 h
      simp only [Prod.mk.injEq] at pair
      obtain ⟨_, rfl⟩ := pair
      have := length_of_literal? second
      simp only [List.length_cons] at first this
      omega
  · rename_i found
    simp only [Option.some.injEq, Prod.mk.injEq] at h
    obtain ⟨_, rfl⟩ := h
    exact length_of_literal? found

/-- The ranges of a class up to its bracket, and what follows it. -/
def ranges? (s : List Char) : Option (List (Char × Char) × List Char) :=
  match _h : range? s with
  | none => none
  | some (r, ']' :: rest) => some ([r], rest)
  | some (r, rest) => (ranges? rest).map fun (rs, rest) => (r :: rs, rest)
termination_by s.length
decreasing_by exact length_of_range? (by assumption)

/-- Whether a byte is in the class whose opening bracket has been read, and what follows it. A
bracket right at the start is a member. -/
def inClass? (c : Char) (s : List Char) : Option (Bool × List Char) :=
  let (negated, s) := match s with
    | '^' :: rest => (true, rest)
    | '!' :: rest => (true, rest)
    | s => (false, s)
  (ranges? s).map fun (rs, rest) => (rs.any (fun (a, b) => a ≤ c && c ≤ b) != negated, rest)

/-- Skip to the end of the braces that are open, or to the next alternative if asked to stop there.
The answer says whether it is an alternative. -/
def skipBraces (toComma : Bool) : (depth : Nat) → (inClass : Bool) → List Char →
    Option (Bool × List Char)
  | 0, _, rest => some (false, rest)
  | _ + 1, _, [] => none
  | depth + 1, false, '\x7b' :: rest => skipBraces toComma (depth + 2) false rest
  | depth + 1, false, '\x7d' :: rest => skipBraces toComma depth false rest
  | depth + 1, false, '[' :: rest => skipBraces toComma (depth + 1) true rest
  | depth + 1, _, ']' :: rest => skipBraces toComma (depth + 1) false rest
  | _ + 1, _, '\\' :: [] => none
  | depth + 1, inClass, '\\' :: _ :: rest => skipBraces toComma (depth + 1) inClass rest
  | depth + 1, inClass, c :: rest =>
    if c = ',' ∧ toComma ∧ depth = 0 ∧ inClass = false then some (true, rest)
    else skipBraces toComma (depth + 1) inClass rest

/-- How far `**` segments repeat. -/
def repeatedStars : List Char → Nat
  | '/' :: '*' :: '*' :: rest => 3 + repeatedStars rest
  | _ => 0

/-! ## One step -/

namespace Search

/-- The search at another byte of the pattern. -/
def withGlob (s : Search) (i : Nat) : Search := { s with state.here.glob := i }

/-- The search at other bytes of pattern and path. -/
def withPlace (s : Search) (p : Place) : Search := { s with state.here := p }

/-- Leave the innermost braces with what the alternatives have come to. -/
def leave (s : Search) : Search :=
  match s.braces with
  | [] => s
  | outer :: rest =>
    { state := { outer with here := ⟨s.state.here.glob, s.longest⟩ }, braces := rest
      longest := if rest.isEmpty then 0 else s.longest }

/-- The star to go on from. -/
def retry? (path : Text) (s : Search) : Option Search :=
  if 0 < s.state.star.path ∧ s.state.star.path ≤ path.size then some (s.withPlace s.state.star)
  else none

end Search

/-- The index in the pattern at which so much of it is left. -/
def indexOf (glob : Text) (rest : List Char) : Nat := glob.size - rest.length

/-- Remember a star and step over it. A double star crosses slashes if it ends the pattern or
stands between slashes; there the slash after it goes with it at the start of a segment. -/
def passStar (glob path : Text) (s : State) : State :=
  let ⟨g, p⟩ := s.here
  if glob[g + 1]? ≠ some '*' then { s with here := ⟨g + 1, p⟩, star := ⟨g, p + 1⟩ }
  else
    let g := g + repeatedStars (glob.toList.drop (g + 2))
    let after := g + 2
    let star : Place := ⟨g, p + 1⟩
    if after = glob.size then { here := ⟨after, p⟩, star := star, deepStar := star }
    else if (after < 3 ∨ glob[after - 3]? = some '/') ∧ glob[after]? = some '/' then
      let optionalSlash := p = 0 ∨ (p < path.size ∧ path[p - 1]? = some '/')
      { here := ⟨if optionalSlash then after + 1 else after, p⟩, star := star, deepStar := star }
    else { s with here := ⟨after, p⟩, star := star }

/-- A star that has come to a slash goes back to the last star that crosses slashes, or ends. -/
def stopAtSlash (path : Text) (s : State) : State :=
  if s.deepStar.path ≠ s.star.path ∧ path[s.here.path]? = some '/' then
    if 0 < s.deepStar.path ∧ s.here.path + 1 < path.size then
      { s with here.glob := s.deepStar.glob, star.glob := s.deepStar.glob }
    else { s with star.path := 0 }
  else s

/-- Take a star. If the alternative ends with it, the others are left out. -/
def takeStar (glob path : Text) (s : Search) : Attempt :=
  let s := { s with state := stopAtSlash path (passStar glob path s.state) }
  let g := s.state.here.glob
  if !s.braces.isEmpty && (glob[g]? == some ',' || glob[g]? == some '\x7d') then
    match skipBraces false 1 false (glob.toList.drop g) with
    | none => .invalid
    | some (_, rest) => .moved (s.withGlob (indexOf glob rest))
  else .moved s

/-- Take a byte that stands for itself. Braces that a star has skipped to the end of are left. -/
def takeLiteral (glob : Text) (s : Search) (c : Char) : Attempt :=
  match literal? (glob.toList.drop s.state.here.glob) with
  | none => .invalid
  | some (wanted, rest) =>
    let g := indexOf glob rest - 1
    if wanted ≠ c then .stuck g
    else
      let s := if 0 < g ∧ glob[g - 1]? = some '\x7d' ∧ s.braces ≠ [] then
          { s with longest := s.state.here.path }.leave
        else s
      let s := s.withPlace ⟨g + 1, s.state.here.path + 1⟩
      .moved (if wanted = '/' then s else { s with state.deepStar.path := 0 })

/-- Take the next part of the pattern. -/
def take (glob path : Text) (s : Search) : Attempt :=
  let ⟨g, p⟩ := s.state.here
  match glob[g]?, path[p]? with
  | none, _ => .stuck g
  | some '*', _ => takeStar glob path s
  | some '?', some c => if c = '/' then .stuck g else .moved (s.withPlace ⟨g + 1, p + 1⟩)
  | some '[', some c =>
    match inClass? c (glob.toList.drop (g + 1)) with
    | none => .invalid
    | some (found, rest) =>
      let g := indexOf glob rest
      if found then .moved (s.withPlace ⟨g, p + 1⟩) else .stuck g
  | some '\x7b', some _ =>
    if s.braces.length < 10 then
      .moved { s with state := { here := ⟨g + 1, p⟩ }, braces := s.state :: s.braces }
    else .invalid
  | some special, c =>
    match s.braces with
    | outer :: _ =>
      if special = '\x7d' then
        .moved ({ s with longest := max s.longest p }.withGlob (g + 1)).leave
      else if special = ',' then
        .moved { s with longest := max s.longest p, state := { here := ⟨g + 1, outer.here.path⟩ } }
      else match c with
        | some c => takeLiteral glob s c
        | none => .stuck g
    | [] => match c with
      | some c => takeLiteral glob s c
      | none => .stuck g

/-- Go on elsewhere: at the last star, at the next alternative, behind the braces if an alternative
has matched, or at the last star before the braces. -/
def goBack (glob path : Text) (s : Search) (g : Nat) : Except Verdict Search :=
  match s.retry? path with
  | some s => .ok s
  | none =>
    match s.braces with
    | [] => .error .unmatched
    | outer :: rest =>
      match skipBraces true 1 false (glob.toList.drop g) with
      | none => .error .invalid
      | some (true, left) => .ok (s.withPlace ⟨indexOf glob left, outer.here.path⟩)
      | some (false, left) =>
        if 0 < s.longest then .ok (s.withGlob (indexOf glob left)).leave
        else
          match Search.retry? path { s with state := outer, braces := rest } with
          | some s => .ok s
          | none => .error .unmatched

/-- One step of a search that has not read all of the pattern and the path. -/
def step (glob path : Text) (s : Search) : Except Verdict Search :=
  match take glob path s with
  | .moved s => .ok s
  | .invalid => .error .invalid
  | .stuck g => goBack glob path s g

/-! ## Matching -/

/-- So many steps of a search. -/
def run (glob path : Text) : (steps : Nat) → Search → Verdict
  | 0, _ => .unmatched
  | steps + 1, s =>
    if s.state.here.glob < glob.size ∨ s.state.here.path < path.size then
      match step glob path s with
      | .ok s => run glob path steps s
      | .error v => v
    else .matched

/-- More steps than a search can take: a star can be taken up again at each byte of the path, a
star that crosses slashes likewise, and so for each level of braces. -/
def stepBound (glob path : Text) : Nat :=
  Nat.pow ((glob.size + 2) * (path.size + 2)) (3 + 2 * min 10 (glob.toList.count '\x7b'))

/-- The path is one that the pattern describes. -/
def accepts (pattern path : String) : Bool :=
  let glob := textOf pattern
  let path := textOf path
  let marks := (glob.toList.takeWhile (· == '!')).length
  match run glob path (stepBound glob path) { state.here.glob := marks } with
  | .matched => marks % 2 == 0
  | .unmatched => marks % 2 == 1
  | .invalid => false

end ScriptAtlas.Glob
