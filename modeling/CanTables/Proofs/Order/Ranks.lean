import CanTables.Proofs.Order.Sorting
import Mathlib.Data.List.Induction
import Mathlib.Data.List.Range

/-!
# CanTables.Proofs.Order.Ranks — positions in a list from which elements are left out

When only some elements of a list are kept, the rank of a position is the number of elements before
it that are kept.  A kept element is found at its rank (`getElem?_filter_rank`), different kept
elements have different ranks (`rank_inj`), and the ranks leave no gap (`map_rank_filter_range`).

Sorting and leaving out may be done in either order (`sortBy_filter`), so sorting by a key keeps what
has one key in order (`filter_sortBy_byKey`).
-/

namespace CanTables

variable {α β : Type}

/-! ## Ranks -/

namespace Positions

variable {p : α → Bool} {l : List α} {i j : Nat} {a b : α}

/-- How many elements before a position are kept. -/
def rank (p : α → Bool) (l : List α) (i : Nat) : Nat := (l.take i).countP p

theorem rank_zero : rank p l 0 = 0 := rfl

theorem rank_cons_succ : rank p (a :: l) (i + 1) = rank p l i + if p a then 1 else 0 := by
  rw [rank, List.take_succ_cons, List.countP_cons]
  rfl

theorem rank_append_left (h : i ≤ l.length) (l' : List α) : rank p (l ++ l') i = rank p l i := by
  rw [rank, List.take_append_of_le_length h]
  rfl

theorem rank_length : rank p l l.length = (l.filter p).length := by
  rw [rank, List.take_length, List.countP_eq_length_filter]

/-- A kept element is found at its rank. -/
theorem getElem?_filter_rank (h : l[i]? = some a) (ha : p a = true) :
    (l.filter p)[rank p l i]? = some a := by
  induction l generalizing i with
  | nil => simp at h
  | cons b rest ih =>
    cases i with
    | zero =>
      obtain rfl : b = a := by simpa using h
      simp [rank_zero, ha]
    | succ i =>
      have hfound := ih (by simpa using h)
      rw [rank_cons_succ]
      cases hb : p b <;> simpa [hb] using hfound

/-- A kept element has a lower rank than whatever comes later. -/
theorem rank_lt (h : l[i]? = some a) (ha : p a = true) (hij : i < j) :
    rank p l i < rank p l j := by
  induction l generalizing i j with
  | nil => simp at h
  | cons b rest ih =>
    obtain ⟨j, rfl⟩ : ∃ j', j = j' + 1 := ⟨j - 1, by omega⟩
    rw [rank_cons_succ]
    cases i with
    | zero =>
      obtain rfl : b = a := by simpa using h
      simp [rank_zero, ha]
    | succ i =>
      rw [rank_cons_succ]
      exact Nat.add_lt_add_right (ih (by simpa using h) (by omega)) _

/-- Kept elements with one rank are one. -/
theorem rank_inj (h : l[i]? = some a) (ha : p a = true) (h' : l[j]? = some b) (hb : p b = true)
    (heq : rank p l i = rank p l j) : i = j := by
  rcases Nat.lt_trichotomy i j with hij | hij | hij
  · exact absurd heq (Nat.ne_of_lt (rank_lt h ha hij))
  · exact hij
  · exact absurd heq.symm (Nat.ne_of_lt (rank_lt h' hb hij))

/-- The ranks of the kept elements are all positions of the shorter list in order. -/
theorem map_rank_filter_range (p : α → Bool) (l : List α) :
    ((List.range l.length).filter fun i => l[i]?.any p).map (rank p l) =
      List.range (l.filter p).length := by
  induction l using List.reverseRecOn with
  | nil => rfl
  | append_singleton l a ih =>
    have hfilter : (List.range l.length).filter (fun i => (l ++ [a])[i]?.any p) =
        (List.range l.length).filter fun i => l[i]?.any p := by
      refine List.filter_congr fun i hi => ?_
      rw [List.getElem?_append_left (List.mem_range.mp hi)]
    have hmap : ((List.range l.length).filter fun i => l[i]?.any p).map (rank p (l ++ [a])) =
        ((List.range l.length).filter fun i => l[i]?.any p).map (rank p l) := by
      refine List.map_congr_left fun i hi => rank_append_left ?_ _
      exact Nat.le_of_lt (List.mem_range.mp (List.mem_filter.mp hi).1)
    rw [List.length_append, List.length_singleton, List.range_succ, List.filter_append,
      List.map_append, hfilter, hmap, ih, List.filter_append]
    cases ha : p a with
    | true => simp [ha, rank_append_left (Nat.le_refl l.length), rank_length, List.range_succ]
    | false => simp [ha]

/-- Whatever is found in the shorter list is a kept element at its rank. -/
theorem exists_rank_of_getElem?_filter (h : (l.filter p)[j]? = some a) :
    ∃ i, l[i]? = some a ∧ p a = true ∧ j = rank p l i := by
  have hj : j ∈ List.range (l.filter p).length :=
    List.mem_range.mpr (List.getElem?_eq_some_iff.mp h).1
  rw [← map_rank_filter_range] at hj
  obtain ⟨i, hi, rfl⟩ := List.mem_map.mp hj
  obtain ⟨b, hb, hpb⟩ := (Option.any_eq_true ..).mp (List.mem_filter.mp hi).2
  obtain rfl := Option.some.inj (h.symm.trans (getElem?_filter_rank hb hpb))
  exact ⟨i, hb, hpb, rfl⟩

/-- What contributes nothing may be left out of a flattened list. -/
theorem flatMap_filter_of_eq_nil {f : α → List β} (h : ∀ a ∈ l, p a = false → f a = []) :
    (l.filter p).flatMap f = l.flatMap f := by
  induction l with
  | nil => rfl
  | cons a rest ih =>
    obtain ⟨ha, hrest⟩ := List.forall_mem_cons.mp h
    cases hp : p a with
    | true => rw [List.filter_cons_of_pos hp, List.flatMap_cons, List.flatMap_cons, ih hrest]
    | false =>
      rw [List.filter_cons_of_neg (by simp [hp]), List.flatMap_cons, ih hrest, ha hp,
        List.nil_append]

end Positions

/-! ## Sorting some elements only -/

namespace Sorting

theorem insertBefore_filter (le : α → α → Bool) [IsTrans α fun a b => le a b = true]
    (p : α → Bool) (a : α) {l : List α} (h : l.Pairwise fun x y => le x y = true) :
    (insertBefore le a l).filter p =
      if p a then insertBefore le a (l.filter p) else l.filter p := by
  induction l with
  | nil => cases ha : p a <;> simp [insertBefore, ha]
  | cons b rest ih =>
    obtain ⟨hb, hrest⟩ := List.pairwise_cons.mp h
    rw [insertBefore]
    split
    · next hab =>
      -- What may precede the first element may precede them all, kept or not.
      have hall : ∀ c ∈ (b :: rest).filter p, le a c = true := by
        intro c hc
        rcases List.mem_cons.mp (List.mem_filter.mp hc).1 with rfl | hc
        · exact hab
        · exact IsTrans.trans (r := fun a b => le a b = true) a b c hab (hb c hc)
      rw [insertBefore_of_le hall, List.filter_cons]
    · next hab =>
      rw [List.filter_cons, ih hrest, List.filter_cons]
      cases p b with
      | true => simp [insertBefore, hab, apply_ite (b :: ·)]
      | false => simp

/-- Elements may be left out before or after sorting. -/
theorem sortBy_filter (le : α → α → Bool) [Std.Total fun a b => le a b = true]
    [IsTrans α fun a b => le a b = true] (p : α → Bool) (l : List α) :
    sortBy le (l.filter p) = (sortBy le l).filter p := by
  induction l with
  | nil => rfl
  | cons a rest ih =>
    have hsorted : (sortBy le rest).Pairwise fun x y => le x y = true := by
      rw [sortBy_eq_insertionSort]
      exact List.pairwise_insertionSort _ rest
    rw [sortBy, insertBefore_filter le p a hsorted, ← ih, List.filter_cons]
    split <;> rfl

/-- Elements may be left out before or after sorting by a key of a linearly ordered type. -/
theorem sortBy_byKey_filter {κ : Type} [LE κ] [LT κ] [DecidableLT κ] [Std.IsLinearOrder κ]
    [Std.LawfulOrderLT κ] (key : α → κ) (p : α → Bool) (l : List α) :
    sortBy (byKey key) (l.filter p) = (sortBy (byKey key) l).filter p := by
  have htotal : Std.Total fun a b => byKey key a b = true := Linear.of_lt.total key
  have htrans : IsTrans α fun a b => byKey key a b = true := Linear.of_lt.isTrans key
  exact sortBy_filter (byKey key) p l

/-- Sorting by a key leaves what has one key in the order it had. -/
theorem filter_sortBy_byKey {κ : Type} [DecidableEq κ] [LE κ] [LT κ] [DecidableLT κ]
    [Std.IsLinearOrder κ] [Std.LawfulOrderLT κ] (key : α → κ) (k : κ) (l : List α) :
    ((sortBy (byKey key) l).filter fun a => key a = k) = l.filter fun a => key a = k := by
  rw [← sortBy_byKey_filter, sortBy_eq_insertionSort]
  apply List.Pairwise.insertionSort_eq
  apply List.pairwise_of_forall_mem_list
  intro a ha b hb
  have hak : key a = k := of_decide_eq_true (List.mem_filter.mp ha).2
  have hbk : key b = k := of_decide_eq_true (List.mem_filter.mp hb).2
  rw [byKey, hak, hbk, Bool.not_eq_true', decide_eq_false_iff_not]
  exact Std.lt_irrefl

end Sorting

end CanTables
