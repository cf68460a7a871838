/-
The types in a catalog. Their codes are strings of the catalog's JSON, and no
string in a JSON value is longer than the text that the value was read from
(`bounded_of_parse?`): each character of a string takes one of the text at least.
The readers of entries hand the bound on to the codes.

The last part puts everything together: whichever way a type is made, its fields
agree.
-/
import ScriptAtlas.Proofs.DeclaredTypes
import ScriptAtlas.Proofs.SingleOrList

namespace ScriptAtlas

/-! ## Strings in JSON values -/

namespace JsonValue

/-- The value `x` is `v` or stands in it. -/
inductive Within (x : JsonValue) : JsonValue → Prop
  | self : Within x x
  | item {v : JsonValue} {vs : List JsonValue} (hv : v ∈ vs) (h : Within x v) : Within x (.array vs)
  | member {key : Option String} {v : JsonValue} {ms : List (Option String × JsonValue)}
    (hv : (key, v) ∈ ms) (h : Within x v) : Within x (.object ms)

/-- No string in the value is longer than `n`. -/
def Bounded (n : Nat) (v : JsonValue) : Prop := ∀ t, Within (.string (some t)) v → t.length ≤ n

section

variable {m n : Nat} {v : JsonValue} {s r : List Char}

theorem Bounded.mono (h : v.Bounded m) (hmn : m ≤ n) : v.Bounded n :=
  fun t ht => Nat.le_trans (h t ht) hmn

theorem bounded_array {vs : List JsonValue} : Bounded n (.array vs) ↔ ∀ v ∈ vs, v.Bounded n := by
  constructor
  · exact fun h v hv t ht => h t (.item hv ht)
  · intro h t ht
    cases ht with
    | item hv ht => exact h _ hv t ht

theorem bounded_object {ms : List (Option String × JsonValue)} :
    Bounded n (.object ms) ↔ ∀ m ∈ ms, m.2.Bounded n := by
  constructor
  · exact fun h m hm t ht => h t (.member hm ht)
  · intro h t ht
    cases ht with
    | member hv ht => exact h _ hv t ht

theorem bounded_string {o : Option String} : Bounded n (.string o) ↔ ∀ t ∈ o, t.length ≤ n := by
  constructor
  · exact fun h t ht => h t (ht ▸ .self)
  · intro h t ht
    cases ht
    exact h t rfl

/-! ## Strings and numbers in a text -/

theorem length_of_unit? {unit : Nat} (h : unit? s = some (unit, r)) : r.length ≤ s.length := by
  unfold unit? at h
  split at h
  · simp only [Option.bind_eq_bind, Option.bind_eq_some_iff] at h
    obtain ⟨_, -, _, -, _, -, _, -, h⟩ := h
    obtain ⟨-, rfl⟩ := Prod.mk.inj (Option.some.inj h)
    simp only [List.length_cons]
    omega
  · cases h

theorem length_escapedChar_le (unit : Nat) (s : List Char) :
    (escapedChar unit s).2.length ≤ s.length := by
  unfold escapedChar
  repeat' split
  all_goals try exact Nat.le_refl _
  rename_i hunit _
  have hlen := length_of_unit? hunit
  simp only [List.length_cons]
  omega

theorem length_of_readEscape {c : Option Char} (h : readEscape s = some (c, r)) :
    r.length ≤ s.length := by
  unfold readEscape at h
  split at h
  case h_9 rest =>
    obtain ⟨⟨unit, r'⟩, hunit, h⟩ := Option.map_eq_some_iff.1 h
    have hlen := length_of_unit? hunit
    have hescaped : r.length ≤ r'.length :=
      (congrArg (·.2.length) h).symm.trans_le (length_escapedChar_le unit r')
    simp only [List.length_cons]
    omega
  case h_10 => cases h
  all_goals
    obtain ⟨-, rfl⟩ := Prod.mk.inj (Option.some.inj h)
    exact Nat.le_succ _

/-- A string that is read is one of characters only if those before it were, and each of its further
characters took one of the text. -/
theorem length_of_readString {found : Option (List Char)} {t : Option String}
    (h : readString n found s = some (t, r)) : r.length ≤ s.length ∧
      ∀ text ∈ t, ∃ cs ∈ found, text.length ≤ cs.length + s.length := by
  fun_induction readString n found s with
  | case1 | case2 | case5 | case6 => cases h
  | case3 n found rest =>
    obtain ⟨rfl, rfl⟩ := Prod.mk.inj (Option.some.inj h)
    refine ⟨Nat.le_succ _, fun text htext => ?_⟩
    obtain ⟨cs, hcs, rfl⟩ := Option.map_eq_some_iff.1 htext
    exact ⟨cs, hcs, by simp⟩
  | case4 n found rest c rest' hescape ih =>
    have hlen := length_of_readEscape hescape
    obtain ⟨hr, htext⟩ := ih h
    refine ⟨by simp only [List.length_cons]; omega, fun text ht => ?_⟩
    obtain ⟨cs, hcs, hle⟩ := htext text ht
    obtain ⟨cs', hfound, hcs⟩ := Option.bind_eq_some_iff.1 hcs
    obtain ⟨d, -, rfl⟩ := Option.map_eq_some_iff.1 hcs
    refine ⟨cs', hfound, ?_⟩
    simp only [List.length_cons] at hle ⊢
    omega
  | case7 n found c rest _ _ _ ih =>
    obtain ⟨hr, htext⟩ := ih h
    refine ⟨Nat.le_succ_of_le hr, fun text ht => ?_⟩
    obtain ⟨cs, hcs, hle⟩ := htext text ht
    obtain ⟨cs', hfound, rfl⟩ := Option.map_eq_some_iff.1 hcs
    refine ⟨cs', hfound, ?_⟩
    simp only [List.length_cons] at hle ⊢
    omega

theorem length_of_fraction {ds : List Char} (h : fraction s = some (ds, r)) :
    r.length ≤ s.length := by
  unfold fraction at h
  split at h
  · split at h
    · cases h
    · obtain ⟨-, rfl⟩ := Prod.mk.inj (Option.some.inj h)
      exact Nat.le_succ_of_le (List.dropWhile_sublist _).length_le
  · obtain ⟨-, rfl⟩ := Prod.mk.inj (Option.some.inj h)
    exact Nat.le_refl _

theorem length_of_exponent {e : Int} (h : exponent s = some (e, r)) : r.length ≤ s.length := by
  unfold exponent at h
  split at h
  · rename_i c rest
    split at h
    · split at h
      rename_i negative unsigned hsign
      have hunsigned : unsigned.length ≤ rest.length := by
        split at hsign
        all_goals
          obtain ⟨-, rfl⟩ := Prod.mk.inj hsign
          simp
      split at h
      · cases h
      · obtain ⟨-, rfl⟩ := Prod.mk.inj (Option.some.inj h)
        have hdigits := (List.dropWhile_sublist (l := unsigned) Char.isDigit).length_le
        simp only [List.length_cons]
        omega
    · obtain ⟨-, rfl⟩ := Prod.mk.inj (Option.some.inj h)
      exact Nat.le_refl _
  · obtain ⟨-, rfl⟩ := Prod.mk.inj (Option.some.inj h)
    exact Nat.le_refl _

theorem length_of_readNumber (h : readNumber s = some (v, r)) :
    (∃ finite, v = .number finite) ∧ r.length ≤ s.length := by
  unfold readNumber at h
  extract_lets unsigned rest at h
  have hunsigned : unsigned.length ≤ s.length := by
    simp only [unsigned]
    split
    · exact Nat.le_succ _
    · exact Nat.le_refl _
  have hrest : ∀ {whole s'}, rest (whole, s') = some (v, r) →
      (∃ finite, v = .number finite) ∧ r.length ≤ s'.length := by
    intro whole s' h
    simp only [rest] at h
    split at h
    · cases h
    · obtain ⟨⟨part, s₁⟩, hpart, h⟩ := Option.bind_eq_some_iff.1 h
      obtain ⟨⟨exp, s₂⟩, hexp, h⟩ := Option.bind_eq_some_iff.1 h
      obtain ⟨rfl, rfl⟩ := Prod.mk.inj (Option.some.inj h)
      exact ⟨⟨_, rfl⟩, Nat.le_trans (length_of_exponent hexp) (length_of_fraction hpart)⟩
  clear_value unsigned
  split at h
  · obtain ⟨hv, hr⟩ := hrest h
    rw [List.length_cons] at hunsigned
    exact ⟨hv, by omega⟩
  · split at h
    · cases h
    · obtain ⟨hv, hr⟩ := hrest h
      have hdigits := (List.dropWhile_sublist (l := unsigned) Char.isDigit).length_le
      exact ⟨hv, by omega⟩

/-! ## Values in a text -/

/-- What is read with this fuel is bounded by the text it is read from, of which some is left. -/
structure BoundedAt (n : Nat) : Prop where
  value : ∀ {s v r}, readValue n s = some (v, r) → v.Bounded s.length ∧ r.length ≤ s.length
  items : ∀ {s vs r}, readItems n s = some (vs, r) →
    (∀ v ∈ vs, v.Bounded s.length) ∧ r.length ≤ s.length
  members : ∀ {s ms r}, readMembers n s = some (ms, r) →
    (∀ m ∈ ms, m.2.Bounded s.length) ∧ r.length ≤ s.length

theorem length_skip_le (s : List Char) : (skip s).length ≤ s.length :=
  (List.dropWhile_sublist _).length_le

theorem bounded_of_readString {t : Option String} (h : readString n (some []) s = some (t, r)) :
    Bounded s.length (.string t) ∧ r.length ≤ s.length := by
  obtain ⟨hr, htext⟩ := length_of_readString h
  refine ⟨bounded_string.2 fun text ht => ?_, hr⟩
  obtain ⟨cs, hcs, hle⟩ := htext text ht
  obtain rfl := Option.some.inj hcs
  rwa [List.length_nil, Nat.zero_add] at hle

theorem bounded_value (ih : BoundedAt n) (h : readValue (n + 1) s = some (v, r)) :
    v.Bounded s.length ∧ r.length ≤ s.length := by
  have hskip := length_skip_le s
  rw [readValue] at h
  split at h
  case h_1 heq | h_2 heq | h_3 heq =>
    obtain ⟨rfl, rfl⟩ := Prod.mk.inj (Option.some.inj h)
    rw [heq] at hskip
    refine ⟨fun t ht => ?_, by simp only [List.length_cons] at hskip; omega⟩
    cases ht
  case h_4 rest heq =>
    obtain ⟨⟨t, r'⟩, hread, h⟩ := Option.map_eq_some_iff.1 h
    obtain ⟨rfl, rfl⟩ := Prod.mk.inj h
    obtain ⟨hstring, hr⟩ := bounded_of_readString hread
    rw [heq, List.length_cons] at hskip
    exact ⟨hstring.mono (by omega), by omega⟩
  case h_5 rest heq =>
    rw [heq, List.length_cons] at hskip
    have hinner := length_skip_le rest
    split at h
    · rename_i r' hclose
      obtain ⟨rfl, rfl⟩ := Prod.mk.inj (Option.some.inj h)
      rw [hclose, List.length_cons] at hinner
      exact ⟨bounded_array.2 (List.forall_mem_nil _), by omega⟩
    · obtain ⟨⟨vs, r'⟩, hread, h⟩ := Option.map_eq_some_iff.1 h
      obtain ⟨rfl, rfl⟩ := Prod.mk.inj h
      obtain ⟨hvs, hr⟩ := ih.items hread
      exact ⟨bounded_array.2 fun v hv => (hvs v hv).mono (by omega), by omega⟩
  case h_6 rest heq =>
    rw [heq, List.length_cons] at hskip
    have hinner := length_skip_le rest
    split at h
    · rename_i r' hclose
      obtain ⟨rfl, rfl⟩ := Prod.mk.inj (Option.some.inj h)
      rw [hclose, List.length_cons] at hinner
      exact ⟨bounded_object.2 (List.forall_mem_nil _), by omega⟩
    · obtain ⟨⟨ms, r'⟩, hread, h⟩ := Option.map_eq_some_iff.1 h
      obtain ⟨rfl, rfl⟩ := Prod.mk.inj h
      obtain ⟨hms, hr⟩ := ih.members hread
      exact ⟨bounded_object.2 fun m hm => (hms m hm).mono (by omega), by omega⟩
  case h_7 =>
    obtain ⟨⟨finite, rfl⟩, hr⟩ := length_of_readNumber h
    refine ⟨fun t ht => ?_, by omega⟩
    cases ht

theorem bounded_items (ih : BoundedAt n) {vs : List JsonValue}
    (h : readItems (n + 1) s = some (vs, r)) :
    (∀ v ∈ vs, v.Bounded s.length) ∧ r.length ≤ s.length := by
  rw [readItems] at h
  split at h
  · cases h
  · rename_i v r₁ hread
    obtain ⟨hv, hr₁⟩ := ih.value hread
    have hskip := length_skip_le r₁
    split at h
    · rename_i heq
      obtain ⟨rfl, rfl⟩ := Prod.mk.inj (Option.some.inj h)
      rw [heq, List.length_cons] at hskip
      exact ⟨List.forall_mem_singleton.2 hv, by omega⟩
    · rename_i heq
      obtain ⟨⟨vs', r'⟩, hread', h⟩ := Option.map_eq_some_iff.1 h
      obtain ⟨rfl, rfl⟩ := Prod.mk.inj h
      rw [heq, List.length_cons] at hskip
      obtain ⟨hvs, hr⟩ := ih.items hread'
      exact ⟨List.forall_mem_cons.2 ⟨hv, fun v hv => (hvs v hv).mono (by omega)⟩, by omega⟩
    · cases h

theorem bounded_members (ih : BoundedAt n) {ms : List (Option String × JsonValue)}
    (h : readMembers (n + 1) s = some (ms, r)) :
    (∀ m ∈ ms, m.2.Bounded s.length) ∧ r.length ≤ s.length := by
  have hskip := length_skip_le s
  rw [readMembers] at h
  split at h
  · rename_i r₁ hquote
    rw [hquote, List.length_cons] at hskip
    split at h
    · cases h
    rename_i key r₂ hkey
    obtain ⟨-, hr₂⟩ := bounded_of_readString hkey
    have hcolon := length_skip_le r₂
    split at h
    · rename_i r₃ heq
      rw [heq, List.length_cons] at hcolon
      split at h
      · cases h
      rename_i v r₄ hread
      obtain ⟨hv, hr₄⟩ := ih.value hread
      have hend := length_skip_le r₄
      have hv' : v.Bounded s.length := hv.mono (by omega)
      split at h
      · rename_i heq
        obtain ⟨rfl, rfl⟩ := Prod.mk.inj (Option.some.inj h)
        rw [heq, List.length_cons] at hend
        exact ⟨List.forall_mem_singleton.2 hv', by omega⟩
      · rename_i heq
        obtain ⟨⟨ms', r'⟩, hread', h⟩ := Option.map_eq_some_iff.1 h
        obtain ⟨rfl, rfl⟩ := Prod.mk.inj h
        rw [heq, List.length_cons] at hend
        obtain ⟨hms, hr⟩ := ih.members hread'
        exact ⟨List.forall_mem_cons.2 ⟨hv', fun m hm => (hms m hm).mono (by omega)⟩, by omega⟩
      · cases h
    · cases h
  · cases h

end

/-- **Reading keeps to the text**, by induction on the fuel. -/
theorem boundedAt (n : Nat) : BoundedAt n := by
  induction n with
  | zero => exact ⟨nofun, nofun, nofun⟩
  | succ n ih => exact ⟨bounded_value ih, bounded_items ih, bounded_members ih⟩

/-- **No string in a value is longer than the text of the value.** -/
theorem bounded_of_parse? {text : String} {v : JsonValue} (h : parse? text = some v) :
    v.Bounded text.length := by
  unfold parse? at h
  extract_lets s at h
  split at h
  · rename_i hread
    obtain ⟨-, h⟩ := Option.ite_none_right_eq_some.1 h
    exact Option.some.inj h ▸ String.length_toList ▸ ((boundedAt _).value hread).1
  · cases h

end JsonValue

/-! ## Entries -/

namespace Record

open JsonValue

/-- What is read from a value whose strings are no longer than `n` satisfies `p`. -/
def Keeps {α : Type} (n : Nat) (reader : JsonValue → Option α) (p : α → Prop) : Prop :=
  ∀ {v : JsonValue} {a : α}, v.Bounded n → reader v = some a → p a

section

variable {α : Type} {n : Nat} {reader : JsonValue → Option α} {p : α → Prop} {v : JsonValue}
  {o : Option JsonValue}

/-- The values of a record are bounded like the record. -/
theorem bounded_of_read {fields : List Field} {vs : List (Option JsonValue)}
    (h : read fields v = some vs) (hv : v.Bounded n) : ∀ o ∈ vs, ∀ w ∈ o, w.Bounded n := by
  rintro _ ho w rfl
  cases v with
  | object members =>
    obtain ⟨key, hm⟩ := mem_of_memberValues (Option.ite_none_right_eq_some.1 h).2 ho
    exact bounded_object.1 hv _ hm
  | array items => exact bounded_array.1 hv w (mem_of_fromList h ho)
  | _ => cases h

theorem keeps_string? : Keeps n string? fun t => t.length ≤ n := by
  intro v t hv h
  unfold string? at h
  split at h
  · exact bounded_string.1 hv t h
  · cases h

theorem Keeps.optional (h : Keeps n reader p) (ho : ∀ w ∈ o, w.Bounded n) {a : Option α}
    (ha : optional reader o = some a) : ∀ b ∈ a, p b := by
  intro b hb
  unfold Record.optional at ha
  split at ha
  · cases ha
    cases hb
  · cases ha
    cases hb
  · rename_i w _
    obtain ⟨c, hc, rfl⟩ := Option.map_eq_some_iff.1 ha
    exact Option.some.inj hb ▸ h (ho w rfl) hc

theorem Keeps.mapM (h : Keeps n reader p) {items : List JsonValue} {as : List α}
    (hi : ∀ v ∈ items, v.Bounded n) (ha : items.mapM reader = some as) : ∀ a ∈ as, p a := by
  induction items generalizing as with
  | nil =>
    cases ha
    nofun
  | cons v items ih =>
    obtain ⟨hv, hi⟩ := List.forall_mem_cons.1 hi
    rw [List.mapM_cons] at ha
    obtain ⟨a, hread, ha⟩ := Option.bind_eq_some_iff.1 ha
    obtain ⟨as', hrest, ha⟩ := Option.bind_eq_some_iff.1 ha
    exact Option.some.inj ha ▸ List.forall_mem_cons.2 ⟨h hv hread, ih hi hrest⟩

theorem Keeps.oneOrMany (h : Keeps n reader p) :
    Keeps n (oneOrMany reader) fun as => ∀ a ∈ as, p a := by
  intro v as hv ha
  rw [oneOrMany_eq, Option.orElse_eq_orElse, Option.orElse_eq_or, Option.or_eq_some_iff] at ha
  rcases ha with hmany | ⟨-, hone⟩
  · cases v with
    | array items => exact h.mapM (bounded_array.1 hv) hmany
    | _ => cases hmany
  · obtain ⟨a, hread, rfl⟩ := Option.map_eq_some_iff.1 hone
    exact List.forall_mem_singleton.2 (h hv hread)

end

end Record

namespace Catalog

open Record JsonValue

/-- The code of a parameter is no longer than `n`. -/
def ParamEntry.Bounded (n : Nat) (e : ParamEntry) : Prop := ∀ c ∈ e.typecode, c.length ≤ n

/-- The codes in a function are no longer than `n`. -/
structure FunctionEntry.Bounded (n : Nat) (e : FunctionEntry) : Prop where
  params : ∀ p ∈ e.params, p.Bounded n
  returns : ∀ c ∈ e.returns, c.length ≤ n

/-- The code of a constant or property is no longer than `n`. -/
def MemberEntry.Bounded (n : Nat) (e : MemberEntry) : Prop := ∀ c ∈ e.typecode, c.length ≤ n

/-- The codes in an object are no longer than `n`. -/
structure ObjectEntry.Bounded (n : Nat) (e : ObjectEntry) : Prop where
  functions : ∀ f ∈ e.functions, f.Bounded n
  constants : ∀ m ∈ e.constants, m.Bounded n
  properties : ∀ m ∈ e.properties, m.Bounded n

section

variable {n : Nat} {o : Option JsonValue}

theorem keeps_returnCode? : Keeps n returnCode? fun code => ∀ c ∈ code, c.length ≤ n := by
  intro v code hv h
  unfold returnCode? at h
  obtain ⟨vs, hread, h⟩ := Option.bind_eq_some_iff.1 h
  have hvs := bounded_of_read hread hv
  split at h
  · exact keeps_string?.optional (hvs _ (by simp)) h
  · cases h

theorem length_of_returnField (ho : ∀ w ∈ o, w.Bounded n) {code : Option String}
    (h : returnField o = some code) : ∀ c ∈ code, c.length ≤ n := by
  intro c hc
  obtain ⟨found, hread, h⟩ := Option.bind_eq_some_iff.1 h
  obtain rfl := Option.some.inj h
  obtain ⟨code, hcode, hc⟩ := Option.bind_eq_some_iff.1 hc
  exact keeps_returnCode?.optional ho hread code hcode c hc

theorem forall_of_sectionField {α : Type} {reader : JsonValue → Option α} {p : α → Prop}
    (h : Keeps n reader p) {name : String} (ho : ∀ w ∈ o, w.Bounded n) {as : List α}
    (ha : sectionField name reader o = some as) : ∀ a ∈ as, p a := by
  have hsection : Keeps n (section? name reader) fun as => ∀ a ∈ as, p a := by
    intro v as hv ha
    obtain ⟨vs, hread, ha⟩ := Option.bind_eq_some_iff.1 ha
    have hvs := bounded_of_read hread hv
    split at ha
    · rename_i list
      unfold listed at ha
      split at ha
      · cases ha
        nofun
      · exact h.oneOrMany (hvs _ List.mem_cons_self _ rfl) ha
    · cases ha
  obtain ⟨found, hread, ha⟩ := Option.bind_eq_some_iff.1 ha
  obtain rfl := Option.some.inj ha
  cases found with
  | none => nofun
  | some as => exact hsection.optional ho hread as rfl

theorem ParamEntry.keeps_read? : Keeps n ParamEntry.read? (·.Bounded n) := by
  intro v e hv h
  unfold read? at h
  obtain ⟨vs, hread, h⟩ := Option.bind_eq_some_iff.1 h
  have hvs := bounded_of_read hread hv
  split at h
  · obtain ⟨_, -, h⟩ := Option.bind_eq_some_iff.1 h
    obtain ⟨code, hcode, h⟩ := Option.bind_eq_some_iff.1 h
    obtain rfl := Option.some.inj h
    exact keeps_string?.optional (hvs _ (by simp)) hcode
  · cases h

theorem FunctionEntry.keeps_read? : Keeps n FunctionEntry.read? (·.Bounded n) := by
  intro v e hv h
  unfold read? at h
  obtain ⟨vs, hread, h⟩ := Option.bind_eq_some_iff.1 h
  have hvs := bounded_of_read hread hv
  split at h
  · obtain ⟨_, -, h⟩ := Option.bind_eq_some_iff.1 h
    obtain ⟨params, hparams, h⟩ := Option.bind_eq_some_iff.1 h
    obtain ⟨code, hcode, h⟩ := Option.bind_eq_some_iff.1 h
    obtain ⟨_, -, h⟩ := Option.bind_eq_some_iff.1 h
    obtain rfl := Option.some.inj h
    exact ⟨forall_of_sectionField ParamEntry.keeps_read? (hvs _ (by simp)) hparams,
      length_of_returnField (hvs _ (by simp)) hcode⟩
  · cases h

theorem MemberEntry.keeps_read? : Keeps n MemberEntry.read? (·.Bounded n) := by
  intro v e hv h
  unfold read? at h
  obtain ⟨vs, hread, h⟩ := Option.bind_eq_some_iff.1 h
  have hvs := bounded_of_read hread hv
  split at h
  · obtain ⟨_, -, h⟩ := Option.bind_eq_some_iff.1 h
    obtain ⟨code, hcode, h⟩ := Option.bind_eq_some_iff.1 h
    obtain ⟨_, -, h⟩ := Option.bind_eq_some_iff.1 h
    obtain rfl := Option.some.inj h
    exact length_of_returnField (hvs _ (by simp)) hcode
  · cases h

theorem ObjectEntry.keeps_read? : Keeps n ObjectEntry.read? (·.Bounded n) := by
  intro v e hv h
  unfold read? at h
  obtain ⟨vs, hread, h⟩ := Option.bind_eq_some_iff.1 h
  have hvs := bounded_of_read hread hv
  split at h
  · obtain ⟨_, -, h⟩ := Option.bind_eq_some_iff.1 h
    obtain ⟨_, -, h⟩ := Option.bind_eq_some_iff.1 h
    obtain ⟨_, -, h⟩ := Option.bind_eq_some_iff.1 h
    obtain ⟨functions, hfunctions, h⟩ := Option.bind_eq_some_iff.1 h
    obtain ⟨constants, hconstants, h⟩ := Option.bind_eq_some_iff.1 h
    obtain ⟨properties, hproperties, h⟩ := Option.bind_eq_some_iff.1 h
    obtain rfl := Option.some.inj h
    exact ⟨forall_of_sectionField FunctionEntry.keeps_read? (hvs _ (by simp)) hfunctions,
      forall_of_sectionField MemberEntry.keeps_read? (hvs _ (by simp)) hconstants,
      forall_of_sectionField MemberEntry.keeps_read? (hvs _ (by simp)) hproperties⟩
  · cases h

/-! ## Documents -/

theorem keeps_runtime? : Keeps n runtime? fun es => ∀ e ∈ es, e.Bounded n := by
  intro v es hv h
  unfold runtime? at h
  obtain ⟨vs, hread, h⟩ := Option.bind_eq_some_iff.1 h
  have hvs := bounded_of_read hread hv
  split at h
  · split at h
    · cases h
      nofun
    · obtain ⟨-, h⟩ := Option.ite_none_right_eq_some.1 h
      exact ObjectEntry.keeps_read?.oneOrMany (hvs _ List.mem_cons_self _ rfl) h
  · cases h

theorem keeps_nested? {inner : JsonValue → Option (Option (List ObjectEntry))} {name : String}
    {p : List ObjectEntry → Prop} (h : Keeps n inner fun o => ∀ es ∈ o, p es) :
    Keeps n (nested? name inner) fun o => ∀ es ∈ o, p es := by
  intro v o hv ho es hes
  unfold nested? at ho
  obtain ⟨vs, hread, ho⟩ := Option.bind_eq_some_iff.1 ho
  have hvs := bounded_of_read hread hv
  split at ho
  · obtain ⟨found, hfound, ho⟩ := Option.bind_eq_some_iff.1 ho
    obtain rfl := Option.some.inj ho
    obtain ⟨o, ho, hes⟩ := Option.bind_eq_some_iff.1 hes
    exact h.optional (hvs _ List.mem_cons_self) hfound o ho es hes
  · cases ho

theorem keeps_root? : Keeps n root? fun o => ∀ es ∈ o, ∀ e ∈ es, e.Bounded n := by
  refine keeps_nested? (keeps_nested? fun hv h => ?_)
  obtain ⟨es, hread, rfl⟩ := Option.map_eq_some_iff.1 h
  exact fun es' hes => Option.some.inj hes ▸ keeps_runtime? hv hread

end

end Catalog

/-! ## Well-formed catalogs -/

/-- The types in an object are well formed. -/
structure ScriptObject.WellFormed (o : ScriptObject) : Prop where
  functions : ∀ f ∈ o.functions, f.WellFormed
  constants : ∀ v ∈ o.constants, v.WellFormed
  properties : ∀ v ∈ o.properties, v.WellFormed

namespace Catalog

/-- The types in the objects are well formed. -/
def WellFormed (c : Catalog) : Prop := ∀ o ∈ c.objects, o.WellFormed

section

variable {n : Nat} (aliases : AliasTable)

theorem plain_typeOf {code : Option String} (hc : ∀ c ∈ code, c.length < 2 ^ 31) :
    PlatformType.Plain (2 ^ 32) (typeOf aliases code) := by
  have hlen : (code.getD "any").length < 2 ^ 31 := by
    cases code with
    | none => decide
    | some c => exact hc c rfl
  have hplain := PlatformType.plain_decodeChars aliases (code.getD "any").toList
    (by rw [String.length_toList]; omega)
  rw [String.length_toList] at hplain
  exact hplain.mono (by omega)

/-- A parameter is optional if its entry says so. A code never does. -/
theorem wellFormed_paramOf {e : ParamEntry} (he : e.Bounded n) (hn : n < 2 ^ 31) :
    (paramOf aliases e).WellFormed := by
  have hplain := plain_typeOf aliases fun c hc => Nat.lt_of_le_of_lt (he c hc) hn
  unfold paramOf
  cases e.optional with
  | false => exact ⟨hplain.wellFormed, hplain.required.symm⟩
  | true => exact ⟨hplain.wellFormed.intoOptional, rfl⟩

theorem wellFormed_functionOf {e : FunctionEntry} (he : e.Bounded n) (hn : n < 2 ^ 31) :
    (functionOf aliases e).WellFormed where
  params := by
    intro p hp
    obtain ⟨q, hq, rfl⟩ := List.mem_map.1 hp
    exact wellFormed_paramOf aliases (he.params q hq) hn
  returns := (plain_typeOf aliases fun c hc => Nat.lt_of_le_of_lt (he.returns c hc) hn).wellFormed

theorem wellFormed_memberOf {e : MemberEntry} (he : e.Bounded n) (hn : n < 2 ^ 31) :
    (memberOf aliases e).WellFormed :=
  (plain_typeOf aliases fun c hc => Nat.lt_of_le_of_lt (he c hc) hn).wellFormed

theorem wellFormed_objectOf {e : ObjectEntry} (he : e.Bounded n) (hn : n < 2 ^ 31) :
    (objectOf aliases e).WellFormed where
  functions := by
    intro f hf
    obtain ⟨g, hg, rfl⟩ := List.mem_map.1 hf
    exact wellFormed_functionOf aliases (he.functions g hg) hn
  constants := by
    intro v hv
    obtain ⟨m, hm, rfl⟩ := List.mem_map.1 hv
    exact wellFormed_memberOf aliases (he.constants m hm) hn
  properties := by
    intro v hv
    obtain ⟨m, hm, rfl⟩ := List.mem_map.1 hv
    exact wellFormed_memberOf aliases (he.properties m hm) hn

end

/-- **The types in a catalog are well formed.** -/
theorem wellFormed_of_parse {text : String} {c : Catalog} (h : Catalog.parse text = .ok c)
    (hlen : text.length < 2 ^ 31) : c.WellFormed := by
  unfold Catalog.parse at h
  split at h
  · cases h
  · rename_i v hv
    unfold ofJson at h
    split at h
    · cases h
    · cases h
    · rename_i entries hroot
      obtain rfl := Except.ok.inj h
      intro o ho
      obtain ⟨e, he, rfl⟩ := List.mem_map.1 ho
      have hbounded := keeps_root? (JsonValue.bounded_of_parse? hv) hroot
      exact wellFormed_objectOf _ (hbounded entries rfl e (List.mem_of_mem_filter he)) hlen

end Catalog

/-! ## Types everywhere -/

open Script Diagnostic

/-- **Every type is well formed**, whatever it is made of, if the text has fewer than `2 ^ 31`
characters: the type of a doc expression, that of a code of the platform with any aliases, the types
in what a script declares, those that names are bound to and that arguments have at any point of the
walk of a script, and the types in a catalog. In what is declared, by a script or by a catalog, a
parameter is optional exactly if its type is. -/
theorem every_type_wellFormed (text : String) (hlen : text.length < 2 ^ 31) :
    (TypeInfo.ofDoc text).WellFormed ∧
      (∀ aliases, (PlatformType.decode text aliases).WellFormed) ∧
      (∀ s, Source.parse? text = some s →
        (∀ file, (Declarations.ofSource s file).WellFormed) ∧
        ∀ index options, visit ⟨s, index, options⟩ s.root {} =
            run ⟨s, index, options⟩ (trace s [] s.root) {} ∧
          ∀ before after, trace s [] s.root = before ++ after →
            (run ⟨s, index, options⟩ before {}).scopes.WellFormed ∧
            ∀ call, ∀ type ∈ actuals (run ⟨s, index, options⟩ before {}).scopes call,
              type.WellFormed) ∧
      ∀ c, Catalog.parse text = .ok c → c.WellFormed := by
  refine ⟨TypeInfo.wellFormed_ofDoc (by omega), fun aliases => ?_, fun s hs => ?_,
    fun c hc => Catalog.wellFormed_of_parse hc hlen⟩
  · have hplain := PlatformType.plain_decodeChars aliases text.toList
      (by rw [String.length_toList]; omega)
    exact hplain.wellFormed
  · have hdoc := Extraction.documented_of_parse? hs (by omega)
    refine ⟨Declarations.wellFormed_ofSource hdoc, fun index options => ?_⟩
    refine ⟨visit_eq_run _ [] s.root {}, fun before after hsplit => ?_⟩
    have htyped := typed_trace hdoc [] s.root
    rw [hsplit, typed_append] at htyped
    have hscopes : (run ⟨s, index, options⟩ before {}).scopes.WellFormed :=
      htyped.1.run (List.forall_mem_singleton.2 nofun)
    exact ⟨hscopes, fun call => wellFormed_actuals hscopes call⟩

/-- A function with a documented parameter and one with a default value, and a variable of a
documented type. -/
def documentedScript : String :=
  "/** @param \x7bArray<string>\x7d [xs] */\nfunction f(xs, k = 1) \x7b\x7d\n" ++
    "/** @type \x7bJSRecord<db:/crm/orders>\x7d */\nvar v = f();"

/-- A catalog with one function, whose parameter is an optional array. All records but the object are
lists. -/
def arrayCatalog : String :=
  "[[[\x7b\"_scriptingName\":\"db\",\"functions\":[[\"f\",[[\"a\",\"[[I\",null,true]],null,null]]\x7d]]]"

theorem documentedScript_arrayCatalog_wellFormed :
    (∃ s, Source.parse? documentedScript = some s ∧
      (Declarations.ofSource s "a.js").functions.map (fun f => f.params.map (·.name)) =
        [["xs", "k"]] ∧
      (Declarations.ofSource s "a.js").WellFormed ∧
      (run ⟨s, {}, {}⟩ (trace s [] s.root) {}).scopes.top.map (·.1) = ["v"] ∧
      (run ⟨s, {}, {}⟩ (trace s [] s.root) {}).scopes.WellFormed) ∧
    ∃ c, Catalog.parse arrayCatalog = .ok c ∧
      c.objects.map (fun o => o.functions.map (·.name)) = [["f"]] ∧ c.WellFormed := by
  have hscript : (Source.parse? documentedScript).map (fun s =>
      ((Declarations.ofSource s "a.js").functions.map (fun f => f.params.map (·.name)),
        (run ⟨s, {}, {}⟩ (trace s [] s.root) {}).scopes.top.map (·.1))) =
      some ([["xs", "k"]], ["v"]) := by decide +kernel
  obtain ⟨s, hs, hnames⟩ := Option.map_eq_some_iff.1 hscript
  obtain ⟨hparams, hbound⟩ := Prod.mk.inj hnames
  have hwell := (every_type_wellFormed documentedScript (by decide +kernel)).2.2.1 s hs
  have hwalk := (hwell.2 {} {}).2 _ [] (List.append_nil _).symm
  refine ⟨⟨s, hs, hparams, hwell.1 "a.js", hbound, hwalk.1⟩, ?_⟩
  have hjson : JsonValue.parse? arrayCatalog = some (.array [.array [.array [.object
      [(some "_scriptingName", .string "db"), (some "functions", .array [.array [.string "f", .array
        [.array [.string "a", .string "[[I", .null, .bool true]], .null, .null]])]]]]) := by
    simp [arrayCatalog, JsonValue.parse?, JsonValue.readValue, JsonValue.readItems,
      JsonValue.readMembers, JsonValue.readString, JsonValue.skip, JsonValue.isBlank]
  have hcatalog : (Catalog.parse arrayCatalog).toOption.map
      (fun c => c.objects.map fun o => o.functions.map (·.name)) = some [["f"]] := by
    simp only [Catalog.parse, hjson]
    rfl
  cases hc : Catalog.parse arrayCatalog with
  | error fault =>
    rw [hc] at hcatalog
    cases hcatalog
  | ok c =>
    rw [hc] at hcatalog
    exact ⟨c, rfl, Option.some.inj hcatalog,
      (every_type_wellFormed arrayCatalog (by decide +kernel)).2.2.2 c hc⟩

end ScriptAtlas
