import CanTables.Order.Sorting
import Mathlib.Data.List.Nodup
import Mathlib.Data.List.Sort

/-!
# CanTables.Proofs.Order.Sorting — what sorting achieves

Sorting is the library's insertion sort (`sortBy_eq_insertionSort`), and what is said of it here rests
on what the library says of that.

A comparison is *linear* when it is irreflexive and transitive and leaves no two different values
undecided; the comparisons of this library are linear on the keys they compare.  Sorting by a linear
comparison of keys yields a list whose keys never decrease, and where no two elements have the same
key the result depends on the elements only, not on the order they came in.
-/

namespace CanTables.Sorting

variable {α κ μ : Type}

/-! ## The library's insertion sort -/

theorem insertBefore_eq_orderedInsert (le : α → α → Bool) (a : α) (l : List α) :
    insertBefore le a l = l.orderedInsert (fun x y => le x y = true) a := by
  induction l with
  | nil => rfl
  | cons b rest ih => rw [insertBefore, ih, List.orderedInsert_cons]

theorem sortBy_eq_insertionSort (le : α → α → Bool) (l : List α) :
    sortBy le l = l.insertionSort fun x y => le x y = true := by
  induction l with
  | nil => rfl
  | cons a rest ih =>
    rw [sortBy, ih, insertBefore_eq_orderedInsert, List.insertionSort_cons]

theorem sortBy_perm (le : α → α → Bool) (l : List α) : (sortBy le l).Perm l := by
  rw [sortBy_eq_insertionSort]
  exact List.perm_insertionSort _ l

theorem mem_sortBy {le : α → α → Bool} {a : α} {l : List α} : a ∈ sortBy le l ↔ a ∈ l := by
  rw [sortBy_eq_insertionSort, List.mem_insertionSort]

/-- Sorting what a function makes of the elements is sorting the elements by what it makes of
them. -/
theorem sortBy_map (le : α → α → Bool) (f : κ → α) (l : List κ) :
    sortBy le (l.map f) = (sortBy (fun x y => le (f x) (f y)) l).map f := by
  rw [sortBy_eq_insertionSort, sortBy_eq_insertionSort]
  exact (List.map_insertionSort _ _ f l fun _ _ _ _ => Iff.rfl).symm

/-! ## Linear comparisons -/

/-- A comparison that decides between any two different values. -/
structure Linear (lt : κ → κ → Bool) : Prop where
  irrefl : ∀ a, lt a a = false
  trans : ∀ {a b c}, lt a b = true → lt b c = true → lt a c = true
  eq_of_not : ∀ {a b}, lt a b = false → lt b a = false → a = b

namespace Linear

theorem asymm {lt : κ → κ → Bool} (h : Linear lt) {a b : κ} (hab : lt a b = true) :
    lt b a = false := by
  by_contra hba
  have haa := h.trans hab (Bool.of_not_eq_false hba)
  rw [h.irrefl] at haa
  cases haa

/-- Not being after is transitive too. -/
theorem not_trans {lt : κ → κ → Bool} (h : Linear lt) {a b c : κ} (hba : lt b a = false)
    (hcb : lt c b = false) : lt c a = false := by
  by_contra hca
  have hca := Bool.of_not_eq_false hca
  cases hab : lt a b with
  | true =>
    have := h.trans hca hab
    rw [hcb] at this
    cases this
  | false =>
    cases h.eq_of_not hab hba
    rw [hcb] at hca
    cases hca

/-- The order of a linearly ordered type. -/
theorem of_lt [LE κ] [LT κ] [DecidableLT κ] [Std.IsLinearOrder κ] [Std.LawfulOrderLT κ] :
    Linear fun a b : κ => decide (a < b) where
  irrefl a := decide_eq_false Std.lt_irrefl
  trans hab hbc := by
    rw [decide_eq_true_eq] at hab hbc ⊢
    exact Std.lt_trans hab hbc
  eq_of_not {a b} hab hba := by
    rw [decide_eq_false_iff_not] at hab hba
    exact ((Std.lt_trichotomy a b).resolve_left hab).resolve_right hba

/-- Nothing first, then the order of a linearly ordered type. -/
theorem optionLt [LE κ] [LT κ] [DecidableLT κ] [Std.IsLinearOrder κ] [Std.LawfulOrderLT κ] :
    Linear (optionLt (κ := κ)) where
  irrefl a := by
    cases a with
    | none => rfl
    | some a => exact of_lt.irrefl a
  trans {a b c} hab hbc := by
    rcases a with _ | a <;> rcases b with _ | b <;> rcases c with _ | c <;>
      simp only [Sorting.optionLt, Bool.false_eq_true] at hab hbc ⊢
    exact of_lt.trans hab hbc
  eq_of_not {a b} hab hba := by
    rcases a with _ | a <;> rcases b with _ | b <;>
      simp only [Sorting.optionLt, Bool.true_eq_false] at hab hba ⊢
    rw [of_lt.eq_of_not hab hba]

/-- One linear comparison after another. -/
theorem thenLt {first : κ → κ → Bool} {second : μ → μ → Bool} (h : Linear first)
    (h' : Linear second) : Linear (thenLt first second) where
  irrefl a := by simp [Sorting.thenLt, h.irrefl, h'.irrefl]
  trans {a b c} hab hbc := by
    simp only [Sorting.thenLt, Bool.or_eq_true, Bool.and_eq_true, Bool.not_eq_true'] at hab hbc ⊢
    rcases hab with hab | ⟨hba, hab⟩ <;> rcases hbc with hbc | ⟨hcb, hbc⟩
    · exact Or.inl (h.trans hab hbc)
    · left
      by_contra hac
      have := h.not_trans hcb (Bool.not_eq_true _ ▸ hac)
      rw [hab] at this
      cases this
    · left
      by_contra hac
      have := h.not_trans (Bool.not_eq_true _ ▸ hac) hba
      rw [hbc] at this
      cases this
    · exact Or.inr ⟨h.not_trans hba hcb, h'.trans hab hbc⟩
  eq_of_not {a b} hab hba := by
    simp only [Sorting.thenLt, Bool.or_eq_false_iff, Bool.and_eq_false_iff,
      Bool.not_eq_false'] at hab hba
    obtain ⟨hab, hab'⟩ := hab
    obtain ⟨hba, hba'⟩ := hba
    have first_eq : a.1 = b.1 := h.eq_of_not hab hba
    have second_eq : a.2 = b.2 := h'.eq_of_not (by simpa [hba] using hab') (by simpa [hab] using hba')
    exact Prod.ext first_eq second_eq

/-- Of two elements one may precede the other by its key. -/
theorem total {lt : κ → κ → Bool} (h : Linear lt) (key : α → κ) :
    Std.Total fun a b => (!lt (key b) (key a)) = true where
  total a b := by
    rw [Bool.not_eq_true', Bool.not_eq_true']
    cases hab : lt (key b) (key a) with
    | true => exact .inr (h.asymm hab)
    | false => exact .inl rfl

theorem isTrans {lt : κ → κ → Bool} (h : Linear lt) (key : α → κ) :
    IsTrans α fun a b => (!lt (key b) (key a)) = true where
  trans a b c hab hbc := by
    rw [Bool.not_eq_true'] at hab hbc ⊢
    exact h.not_trans hab hbc

end Linear

/-- What is lexicographically before: by the first part, or by the second where the first parts are
equal. -/
theorem thenLt_eq_true_iff {first : κ → κ → Bool} {second : μ → μ → Bool} (h : Linear first)
    {a b : κ × μ} :
    thenLt first second a b = true ↔
      first a.1 b.1 = true ∨ a.1 = b.1 ∧ second a.2 b.2 = true := by
  simp only [thenLt, Bool.or_eq_true, Bool.and_eq_true, Bool.not_eq_true']
  constructor
  · rintro (hab | ⟨hba, hab⟩)
    · exact Or.inl hab
    · cases hfirst : first a.1 b.1 with
      | true => exact Or.inl rfl
      | false => exact Or.inr ⟨h.eq_of_not hfirst hba, hab⟩
  · rintro (hab | ⟨heq, hab⟩)
    · exact Or.inl hab
    · exact Or.inr ⟨by rw [heq]; exact h.irrefl _, hab⟩

/-! ## Sorting by keys -/

section Keys

variable {lt : κ → κ → Bool} {key : α → κ}

/-- Sorting by a linear comparison of keys: along the result keys never decrease. -/
theorem sortBy_key_pairwise (h : Linear lt) (key : α → κ) (l : List α) :
    (sortBy (fun a b => !lt (key b) (key a)) l).Pairwise fun a b => lt (key b) (key a) = false := by
  have htotal := h.total key
  have htrans := h.isTrans key
  rw [sortBy_eq_insertionSort]
  exact (List.pairwise_insertionSort _ l).imp fun hab => by simpa using hab

/-- Where no two elements have the same key, along the result keys strictly increase. -/
theorem sortBy_key_strict (h : Linear lt) {l : List α} (distinct : (l.map key).Nodup) :
    (sortBy (fun a b => !lt (key b) (key a)) l).Pairwise fun a b => lt (key a) (key b) = true := by
  have hnodup := ((sortBy_perm (fun a b => !lt (key b) (key a)) l).map key).nodup_iff.mpr distinct
  have hne := List.pairwise_map.mp hnodup
  refine ((sortBy_key_pairwise h key l).and hne).imp fun {a b} hab => ?_
  by_contra hlt
  exact hab.2 (h.eq_of_not (Bool.not_eq_true _ ▸ hlt) hab.1)

/-- Where no two elements have the same key, the result depends on the elements only. -/
theorem sortBy_key_eq_of_perm (h : Linear lt) (key : α → κ) {l l' : List α} (perm : l.Perm l')
    (distinct : (l.map key).Nodup) :
    sortBy (fun a b => !lt (key b) (key a)) l = sortBy (fun a b => !lt (key b) (key a)) l' := by
  have distinct' := (perm.map key).nodup_iff.mp distinct
  have sorted_perm := ((sortBy_perm (fun a b => !lt (key b) (key a)) l).trans perm).trans
    (sortBy_perm (fun a b => !lt (key b) (key a)) l').symm
  refine sorted_perm.eq_of_pairwise (fun a b _ _ hab hba => ?_) (sortBy_key_strict h distinct)
    (sortBy_key_strict h distinct')
  rw [h.asymm hab] at hba
  cases hba

end Keys

/-- Sorting by a key of a linearly ordered type: along the result keys never decrease. -/
theorem sortBy_byKey_pairwise [LE κ] [LT κ] [DecidableLT κ] [Std.IsLinearOrder κ]
    [Std.LawfulOrderLT κ] (key : α → κ) (l : List α) :
    (sortBy (byKey key) l).Pairwise fun a b => key a ≤ key b := by
  refine (sortBy_key_pairwise Linear.of_lt key l).imp fun hab => ?_
  exact Std.not_lt.mp (of_decide_eq_false hab)

/-! ## Stability -/

section Stability

variable {le le' : α → α → Bool}

theorem insertBefore_of_le {a : α} {l : List α} (h : ∀ b ∈ l, le a b = true) :
    insertBefore le a l = a :: l := by
  cases l with
  | nil => rfl
  | cons b rest => rw [insertBefore, if_pos (h b List.mem_cons_self)]

theorem insertBefore_append {a : α} {l : List α} (h : ∀ b ∈ l, le a b = false) (l' : List α) :
    insertBefore le a (l ++ l') = l ++ insertBefore le a l' := by
  induction l with
  | nil => rfl
  | cons b rest ih =>
    obtain ⟨hb, hrest⟩ := List.forall_mem_cons.mp h
    rw [List.cons_append, insertBefore, hb, if_neg Bool.false_ne_true, ih hrest, List.cons_append]

theorem insertBefore_congr {a : α} {l : List α} (h : ∀ b ∈ l, le a b = le' a b) :
    insertBefore le a l = insertBefore le' a l := by
  induction l with
  | nil => rfl
  | cons b rest ih =>
    obtain ⟨hb, hrest⟩ := List.forall_mem_cons.mp h
    rw [insertBefore, insertBefore, hb, ih hrest]

/-- Sorting asks only whether an element may precede one that comes later. -/
theorem sortBy_congr {l : List α} (h : l.Pairwise fun a b => le a b = le' a b) :
    sortBy le l = sortBy le' l := by
  induction l with
  | nil => rfl
  | cons a rest ih =>
    obtain ⟨ha, hrest⟩ := List.pairwise_cons.mp h
    rw [sortBy, sortBy, ih hrest]
    exact insertBefore_congr fun b hb => ha b (mem_sortBy.mp hb)

variable [DecidableEq κ] [LE κ] [LT κ] [DecidableLT κ] [Std.IsLinearOrder κ]
  [Std.LawfulOrderLT κ]

/-- Sorting by a key puts together what has one key, in the order it had. -/
theorem sortBy_eq_flatMap (key : α → κ) {keys : List κ} (sorted : keys.Pairwise (· < ·))
    {l : List α} (covers : ∀ a ∈ l, key a ∈ keys) :
    sortBy (byKey key) l = keys.flatMap fun k => l.filter fun a => key a = k := by
  induction l with
  | nil =>
    rw [sortBy, eq_comm, List.flatMap_eq_nil_iff]
    exact fun _ _ => List.filter_nil
  | cons a rest ih =>
    obtain ⟨ha, hrest⟩ := List.forall_mem_cons.mp covers
    obtain ⟨smaller, greater, rfl⟩ := List.append_of_mem ha
    obtain ⟨-, hgreater, hless⟩ := List.pairwise_append.mp sorted
    obtain ⟨hmore, -⟩ := List.pairwise_cons.mp hgreater
    have hskip : ∀ k, k ≠ key a → (a :: rest).filter (fun b => key b = k) =
        rest.filter fun b => key b = k := by
      intro k hk
      rw [List.filter_cons_of_neg]
      simpa using fun heq => hk heq.symm
    have hsmaller : ∀ k ∈ smaller, k ≠ key a := fun k hk heq =>
      Std.lt_irrefl (heq ▸ hless k hk (key a) List.mem_cons_self)
    have hlarger : ∀ k ∈ greater, k ≠ key a := fun k hk heq =>
      Std.lt_irrefl (heq ▸ hmore k hk)
    have hfirst : (a :: rest).filter (fun b => key b = key a) =
        a :: rest.filter fun b => key b = key a := by
      rw [List.filter_cons_of_pos]
      exact decide_eq_true rfl
    rw [sortBy, ih hrest, List.flatMap_append, List.flatMap_append, List.flatMap_cons,
      List.flatMap_cons, List.flatMap_congr fun k hk => hskip k (hsmaller k hk),
      List.flatMap_congr fun k hk => hskip k (hlarger k hk), hfirst]
    rw [insertBefore_append, insertBefore_of_le]
    · rw [List.cons_append]
    · intro b hb
      rw [byKey, Bool.not_eq_true', decide_eq_false_iff_not]
      rcases List.mem_append.mp hb with hb | hb
      · have heq : key b = key a := of_decide_eq_true (List.mem_filter.mp hb).2
        rw [heq]
        exact Std.lt_irrefl
      · obtain ⟨k, hk, hb⟩ := List.mem_flatMap.mp hb
        have heq : key b = k := of_decide_eq_true (List.mem_filter.mp hb).2
        rw [heq]
        exact fun hlt => Std.lt_irrefl (Std.lt_trans hlt (hmore k hk))
    · intro b hb
      obtain ⟨k, hk, hb⟩ := List.mem_flatMap.mp hb
      have heq : key b = k := of_decide_eq_true (List.mem_filter.mp hb).2
      rw [byKey, Bool.not_eq_false', decide_eq_true_iff, heq]
      exact hless k hk (key a) List.mem_cons_self

end Stability

end CanTables.Sorting
