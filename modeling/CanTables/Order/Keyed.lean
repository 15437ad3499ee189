/-!
# CanTables.Order.Keyed — finite maps as lists in key order

A finite map is a list of pairs whose keys strictly increase, so two maps are equal exactly when
their lists are, and listing a map visits its keys in order.  Buses by name, signals by name, states
by value and the fields of a configuration object are all kept this way.

Every operation keeps the order (`Keyed.Ordered`); what an operation does is said through
`Keyed.get?`.
-/

namespace CanTables

/-- A finite map from `κ` to `α`. -/
abbrev Keyed (κ α : Type) := List (κ × α)

namespace Keyed

variable {κ α : Type}

/-- Keys strictly increase along the list. -/
def Ordered [LT κ] (m : Keyed κ α) : Prop := m.Pairwise fun a b => a.1 < b.1

/-- The keys, in order. -/
def keys (m : Keyed κ α) : List κ := m.map Prod.fst

variable [DecidableEq κ]

/-- The value under a key. -/
def get? (m : Keyed κ α) (k : κ) : Option α :=
  match m with
  | [] => none
  | (k', v) :: rest => if k = k' then some v else get? rest k

/-- A key with a value. -/
def contains (m : Keyed κ α) (k : κ) : Bool := (m.get? k).isSome

/-- The map without a key. -/
def erase (m : Keyed κ α) (k : κ) : Keyed κ α := m.filter fun entry => entry.1 != k

@[simp]
theorem get?_nil (k : κ) : get? ([] : Keyed κ α) k = none := rfl

theorem get?_cons (k k' : κ) (v : α) (rest : Keyed κ α) :
    get? ((k', v) :: rest) k = if k = k' then some v else get? rest k := rfl

variable [LT κ] [DecidableLT κ]

/-- Replaces the value under a key, or puts a first one there, keeping the order. -/
def upsert (k : κ) (f : Option α → α) : Keyed κ α → Keyed κ α
  | [] => [(k, f none)]
  | (k', v) :: rest =>
    if k = k' then (k', f (some v)) :: rest
    else if k < k' then (k, f none) :: (k', v) :: rest
    else (k', v) :: upsert k f rest

/-- The map with a value under a key, whatever was there before. -/
def insert (m : Keyed κ α) (k : κ) (v : α) : Keyed κ α := upsert k (fun _ => v) m

/-- The map with a value under a key that had none; an earlier value stays. -/
def insertIfNew (m : Keyed κ α) (k : κ) (v : α) : Keyed κ α := upsert k (·.getD v) m

/-- Only the value under the given key changes. -/
theorem get?_upsert_of_ne {m : Keyed κ α} {k k' : κ} (f : Option α → α) (h : k' ≠ k) :
    get? (upsert k f m) k' = get? m k' := by
  induction m with
  | nil => simp [upsert, get?_cons, h]
  | cons entry rest ih =>
    obtain ⟨key, v⟩ := entry
    simp only [upsert]
    split
    · simp only [get?_cons]
      split
      · subst_vars; exact absurd rfl h
      · rfl
    · split
      · simp [get?_cons, h]
      · simp only [get?_cons, ih]

end Keyed

end CanTables
