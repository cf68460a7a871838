/-
Lists in order. What is listed of names, keys and files is put in order at the
end, since it is come by in the order of a table or of a walk. A table whose
entries stand in the order of their keys is kept so.
-/

namespace ScriptAtlas.Ordered

section

variable {α : Type} [LE α] [DecidableLE α]

/-- The list with one more member, in front of the first that is no smaller. -/
def insert (a : α) : List α → List α
  | [] => [a]
  | b :: bs => if a ≤ b then a :: b :: bs else b :: insert a bs

/-- The members of a list in order. -/
def sort (xs : List α) : List α := xs.foldr insert []

end

/-- The table with one more entry, in its place, which an older one of the same key leaves. -/
def put {κ β : Type} [LT κ] [DecidableLT κ] [DecidableEq κ] (key : κ) (value : β) :
    List (κ × β) → List (κ × β)
  | [] => [(key, value)]
  | (k, v) :: rest =>
    if key < k then (key, value) :: (k, v) :: rest
    else if k = key then (key, value) :: rest
    else (k, v) :: put key value rest

end ScriptAtlas.Ordered
