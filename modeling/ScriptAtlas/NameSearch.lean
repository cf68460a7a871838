/-
Search for names by what has been typed so far. Case does not count. A name is
found when it starts with the typed text, or when its edit distance to it is
small for the length of the text. Names that start with the text come first,
then near ones before far ones, then short ones before long ones.
-/
import ScriptAtlas.EditDistance
import ScriptAtlas.Text.LowerCase

namespace ScriptAtlas.NameSearch

/-- A name that was found, with what decides its rank. -/
structure Hit where
  name : String
  leads : Bool
  distance : Nat
  length : Nat
  deriving DecidableEq, Repr, Inhabited

/-- The first hit ranks no lower than the second. -/
def Hit.atLeast (a b : Hit) : Bool :=
  if a.leads != b.leads then a.leads
  else if a.distance != b.distance then a.distance < b.distance
  else a.length ≤ b.length

/-- The largest distance at which a name is still found. -/
def tolerance (typed : List Char) : Nat := max 2 (typed.length / 3)

/-- The hit a name is for the lower-cased typed text, if it is found. -/
def hit? (typed : List Char) (name : String) : Option Hit :=
  let lowered := Text.lower name.toList
  let distance := EditDistance.distance typed lowered
  let leads := typed.isPrefixOf lowered
  if leads || distance ≤ tolerance typed then
    some { name, leads, distance, length := name.length }
  else none

/-- The names found, best first; equal ranks keep their order. -/
def search (names : List String) (typed : String) : List String :=
  ((names.filterMap (hit? (Text.lower typed.toList))).mergeSort Hit.atLeast).map (·.name)

end ScriptAtlas.NameSearch
