/-!
# CanTables.Order.Sorting — stable sorting

Tables are sorted by names and numbers, and rows that compare equal keep the order they had.
Insertion from the back does this: an element is put in front of the first one that it may precede.
-/

namespace CanTables.Sorting

variable {α : Type}

/-- Puts an element in front of the first one that it may precede. -/
def insertBefore (le : α → α → Bool) (a : α) : List α → List α
  | [] => [a]
  | b :: rest => if le a b then a :: b :: rest else b :: insertBefore le a rest

/-- The list in the order of `le`; elements that may precede each other keep their order. -/
def sortBy (le : α → α → Bool) : List α → List α
  | [] => []
  | a :: rest => insertBefore le a (sortBy le rest)

/-! ## Comparisons -/

/-- Compares by a key. -/
def byKey {κ : Type} [LT κ] [DecidableLT κ] (key : α → κ) (a b : α) : Bool :=
  !decide (key b < key a)

/-- Nothing comes before something. -/
def optionLt {κ : Type} [LT κ] [DecidableLT κ] : Option κ → Option κ → Bool
  | _, none => false
  | none, some _ => true
  | some a, some b => a < b

/-- One comparison after another: the second decides where the first finds no difference. -/
def thenLt {κ μ : Type} (first : κ → κ → Bool) (second : μ → μ → Bool) (a b : κ × μ) : Bool :=
  first a.1 b.1 || (!first b.1 a.1 && second a.2 b.2)

end CanTables.Sorting
