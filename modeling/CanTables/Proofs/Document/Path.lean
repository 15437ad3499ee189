import CanTables.Proofs.Document.Pile
import CanTables.Proofs.Order.Positions

/-!
# CanTables.Proofs.Document.Path — what stands at a path of merged values

Values are consistent if at every path that two of them have they have values of one kind.  Then
looking along a path commutes with merging (`at?_overlayEntry`), so what merged values have at a
path is merged from what each of them has there (`Pile.at?`).  How a pile was merged does not matter
for what is seen of it: a value that is neither object nor array is the topmost one, and an array is
all arrays one after the other.
-/

namespace CanTables.Document.Value

open Positions

/-! ## Kinds along paths -/

/-- Both are objects, both are arrays, or both are neither. -/
inductive SameKind : Value → Value → Prop where
  | plain {v w : Value} (hv : v.IsPlain) (hw : w.IsPlain) : SameKind v w
  | array (xs ys : List Value) : SameKind (.array xs) (.array ys)
  | object (m n : Fields) : SameKind (.object m) (.object n)

/-- At every path that both values have, they have values of one kind. -/
def Consistent (v w : Value) : Prop :=
  ∀ path x y, v.at? path = some x → w.at? path = some y → SameKind x y

theorem OneKind.sameKind {v w : Value} (h : OneKind v w) : SameKind v w := by
  cases h with
  | plain hv hw => exact .plain hv hw
  | array xs ys => exact .array xs ys
  | object _ => exact .object _ _

theorem at?_cons_object (fields : Fields) (key : String) (path : List String) :
    (object fields).at? (key :: path) = (fields.get? key).bind (·.at? path) := rfl

/-- Only objects have anything at longer paths. -/
theorem at?_cons_of_not_object {v : Value} (h : ∀ fields, v ≠ object fields) (key : String)
    (path : List String) : v.at? (key :: path) = none := by
  cases v with
  | object fields => exact absurd rfl (h fields)
  | _ => rfl

theorem at?_singleton (fields : Fields) (key : String) :
    (object fields).at? [key] = fields.get? key := Option.bind_fun_some _

theorem at?_concat {v : Value} {path : List String} {fields : Fields}
    (h : v.at? path = some (object fields)) (key : String) :
    v.at? (path ++ [key]) = fields.get? key := by
  induction path generalizing v with
  | nil =>
    obtain rfl := Option.some.inj h
    exact at?_singleton fields key
  | cons first path ih =>
    obtain ⟨u, hu, hpath⟩ := Option.bind_eq_some_iff.mp h
    exact (congrArg (Option.bind · _) hu).trans (ih hpath)

theorem ordered_of_at? (v : OrderedValue) {w : Value} {path : List String}
    (hw : v.value.at? path = some w) : w.Ordered := by
  obtain ⟨v, ordered⟩ := v
  induction path generalizing v with
  | nil => exact Option.some.inj hw ▸ ordered
  | cons key path ih =>
    obtain ⟨u, hu, hw⟩ := Option.bind_eq_some_iff.mp hw
    exact ih u (ordered_field? ordered hu) hw

theorem IsPlain.ne_object {v : Value} (h : v.IsPlain) (fields : Fields) : v ≠ object fields := by
  rintro rfl
  exact h

theorem eraseField_of_not_object {v : Value} (h : ∀ fields, v ≠ object fields) (key : String) :
    v.eraseField key = v := by
  cases v with
  | object fields => exact absurd rfl (h fields)
  | _ => rfl

/-- What consistent objects have under a key is consistent. -/
theorem Consistent.of_get? {m n : Fields} (h : Consistent (.object m) (.object n)) {key : String}
    {x y : Value} (hx : m.get? key = some x) (hy : n.get? key = some y) : Consistent x y := by
  intro path u v hu hv
  refine h (key :: path) u v ?_ ?_
  · rw [at?_cons_object, hx]
    exact hu
  · rw [at?_cons_object, hy]
    exact hv

theorem Consistent.eraseField {v w : Value} (h : Consistent v w) (key : String) :
    Consistent (v.eraseField key) (w.eraseField key) := by
  intro path x y hx hy
  cases h [] v w rfl rfl with
  | plain hv hw =>
    rw [eraseField_of_not_object hv.ne_object] at hx
    rw [eraseField_of_not_object hw.ne_object] at hy
    exact h path x y hx hy
  | array xs ys => exact h path x y hx hy
  | object m n =>
    cases path with
    | nil =>
      cases hx
      cases hy
      exact .object _ _
    | cons first rest =>
      rw [Value.eraseField, at?_cons_object, Keyed.get?_erase] at hx hy
      -- What is left under other keys is what was there.
      split at hx
      · cases hx
      · next hne =>
        rw [if_neg hne] at hy
        exact h (first :: rest) x y hx hy

/-- Consistent values are of one kind at every depth. -/
theorem Consistent.oneKind {v w : Value} (h : Consistent v w) : OneKind v w := by
  induction hsize : sizeOf v using Nat.strongRecOn generalizing v w with
  | ind size ih =>
    cases h [] v w rfl rfl with
    | plain hv hw => exact .plain hv hw
    | array xs ys => exact .array xs ys
    | object m n =>
      refine .object fun key x y hx hy => ih (sizeOf x) ?_ (h.of_get? hx hy) rfl
      exact hsize ▸ sizeOf_lt_of_get? hx

/-- Values that are of one kind at every depth are consistent. -/
theorem OneKind.consistent {v w : Value} (h : OneKind v w) : Consistent v w := by
  intro path
  induction path generalizing v w with
  | nil =>
    intro x y hx hy
    cases hx
    cases hy
    exact h.sameKind
  | cons key path ih =>
    intro x y hx hy
    cases h with
    | plain hv _ =>
      rw [at?_cons_of_not_object hv.ne_object] at hx
      cases hx
    | array xs ys => cases hx
    | object kinds =>
      rw [at?_cons_object] at hx hy
      obtain ⟨u, hu, hux⟩ := Option.bind_eq_some_iff.mp hx
      obtain ⟨u', hu', huy⟩ := Option.bind_eq_some_iff.mp hy
      exact ih (kinds key u u' hu hu') x y hux huy

/-- Objects are consistent if they are without a field and what both have there is. -/
theorem Consistent.of_eraseField {m n : Fields} {key : String}
    (h : Consistent ((object m).eraseField key) ((object n).eraseField key))
    (hkey : ∀ x y, m.get? key = some x → n.get? key = some y → Consistent x y) :
    Consistent (.object m) (.object n) := by
  refine OneKind.consistent (.object fun key' x y hx hy => ?_)
  by_cases heq : key' = key
  · obtain rfl := heq
    exact (hkey x y hx hy).oneKind
  · have hget : ∀ fields : Fields, (Keyed.erase fields key).get? key' = fields.get? key' :=
      fun fields => by rw [Keyed.get?_erase, if_neg heq]
    exact (h.of_get? ((hget m).trans hx) ((hget n).trans hy)).oneKind

mutual

/-- Whether two values are of one kind at every depth. -/
def isOneKind : Value → Value → Bool
  | .object fields, .object others => areOneKind fields others
  | .array _, .array _ => true
  | .object _, _ | .array _, _ | _, .object _ | _, .array _ => false
  | _, _ => true

/-- Whether values are of one kind at every depth with what other fields have under their keys. -/
def areOneKind : List (String × Value) → Fields → Bool
  | [], _ => true
  | (key, value) :: rest, others =>
    (others.get? key).all (isOneKind value) && areOneKind rest others

end

theorem isOneKind_of_mem {fields others : Fields} (h : areOneKind fields others) {key : String}
    {v w : Value} (hv : (key, v) ∈ fields) (hw : others.get? key = some w) : isOneKind v w := by
  induction fields with
  | nil => cases hv
  | cons entry rest ih =>
    rw [areOneKind, Bool.and_eq_true] at h
    rcases List.mem_cons.mp hv with rfl | hv
    · rw [hw] at h
      exact h.1
    · exact ih h.2 hv

theorem OneKind.of_isOneKind {v w : Value} (h : isOneKind v w) : OneKind v w := by
  induction hsize : sizeOf v using Nat.strongRecOn generalizing v w with
  | ind size ih =>
    cases v with
    | object m =>
      cases w with
      | object n =>
        rw [isOneKind] at h
        refine .object fun key x y hx hy => ?_
        have hless : sizeOf x < size := hsize ▸ sizeOf_lt_of_get? hx
        exact ih (sizeOf x) hless (isOneKind_of_mem h (Keyed.mem_of_get?_eq_some hx) hy) rfl
      | _ => cases h
    | array xs =>
      cases w with
      | array ys => exact .array xs ys
      | _ => cases h
    | _ =>
      cases w with
      | array ys => cases h
      | object n => cases h
      | _ => exact .plain trivial trivial

/-! ## Looking along a path -/

/-- Looking along a path of two merged values, or merging what both have there. -/
theorem at?_overlayEntry {below above : OrderedValue} (kind : OneKind below above)
    (path : List String) : (overlayEntry below above).at? path =
      Option.merge overlayEntry (below.value.at? path) (above.value.at? path) := by
  obtain ⟨below, hbelow⟩ := below
  obtain ⟨above, habove⟩ := above
  dsimp only at kind ⊢
  induction path generalizing below above with
  | nil => rfl
  | cons key path ih =>
    cases kind with
    | plain hv hw =>
      rw [overlayEntry_plain below hw, at?_cons_of_not_object hv.ne_object,
        at?_cons_of_not_object hw.ne_object]
      rfl
    | array xs ys =>
      rw [overlayEntry]
      rfl
    | @object m n kinds =>
      rw [overlayEntry_object, at?_cons_object, at?_cons_object, at?_cons_object,
        get?_overlayFields ⟨m, hbelow⟩ ⟨n, habove⟩]
      cases hx : m.get? key with
      | none => rw [Option.merge_none_left, Option.bind_none, Option.merge_none_left]
      | some x =>
        cases hy : n.get? key with
        | none => rw [Option.merge_none_right, Option.bind_none, Option.merge_none_right]
        | some y =>
          rw [Option.merge_some_some]
          exact ih x (ordered_of_get? hbelow hx) y (ordered_of_get? habove hy) (kinds key x y hx hy)

namespace Pile

section Ordered

variable {values : List OrderedValue} {v : Value}

/-- A pile of values of one kind with another is of that kind. -/
theorem oneKind (h : Pile (values.map OrderedValue.value) v) {u : Value}
    (kinds : ∀ w ∈ values.map OrderedValue.value, OneKind w u) : OneKind v u := by
  generalize hlist : values.map OrderedValue.value = list at h kinds
  induction h generalizing values with
  | single v => exact kinds v List.mem_cons_self
  | @merge _ _ below above hbelow habove ih ih' =>
    obtain ⟨klower, kupper⟩ := List.forall_mem_append.mp kinds
    obtain ⟨lower, upper, rfl, rfl, rfl⟩ := List.map_eq_append_iff.mp hlist
    let below : OrderedValue := ⟨below, hbelow.ordered⟩
    let above : OrderedValue := ⟨above, habove.ordered⟩
    exact OneKind.merge (a := below) (b := above) (ih rfl klower) (ih' rfl kupper)

/-- What a pile of consistent values has at a path is a pile of what the values have there. -/
theorem at? (h : Pile (values.map OrderedValue.value) v)
    (kinds : (values.map OrderedValue.value).Pairwise OneKind) (path : List String) :
    Piles ((values.map OrderedValue.value).filterMap (·.at? path)) (v.at? path) := by
  generalize hlist : values.map OrderedValue.value = list at h kinds ⊢
  induction h generalizing values with
  | single v =>
    cases hv : v.at? path with
    | none =>
      rw [List.filterMap_cons, hv]
      rfl
    | some x =>
      rw [List.filterMap_cons, hv]
      exact .single x
  | @merge _ _ below above hbelow habove ih ih' =>
    obtain ⟨klower, kupper, kboth⟩ := List.pairwise_append.mp kinds
    obtain ⟨lower, upper, rfl, rfl, rfl⟩ := List.map_eq_append_iff.mp hlist
    let below : OrderedValue := ⟨below, hbelow.ordered⟩
    let above : OrderedValue := ⟨above, habove.ordered⟩
    have kind : OneKind below above :=
      hbelow.oneKind fun w hw => (habove.oneKind fun u hu => (kboth w hw u hu).symm).symm
    rw [List.filterMap_append, at?_overlayEntry kind]
    exact (ih rfl klower).merge (ih' rfl kupper)

end Ordered

variable {values : List Value} {v : Value}

/-! ## What is seen of a pile -/

/-- A pile that is neither object nor array is its topmost value. -/
theorem getLast?_of_isPlain (h : Pile values v) (hv : v.IsPlain) : values.getLast? = some v := by
  induction h with
  | single v => rfl
  | @merge lower upper below above _ habove _ ih' =>
    have hplain : above.IsPlain := by
      cases above with
      | object fields => cases below <;> exact hv
      | array items => cases below <;> exact hv
      | _ => trivial
    rw [overlayEntry_plain below hplain, List.getLast?_append_of_ne_nil _ habove.ne_nil]
    exact ih' hplain

/-- A pile with a value on top that is neither object nor array is that value. -/
theorem eq_of_getLast? (h : Pile values v) {x : Value} (hlast : values.getLast? = some x)
    (hx : x.IsPlain) : v = x := by
  induction h with
  | single v => exact Option.some.inj hlast
  | merge _ habove _ ih' =>
    rw [List.getLast?_append_of_ne_nil _ habove.ne_nil] at hlast
    rw [ih' hlast, overlayEntry_plain _ hx]

/-- A pile of arrays is all of them, one after the other. -/
theorem eq_of_arrays {arrays : List (List Value)} (h : Pile (arrays.map Value.array) v) :
    v = .array arrays.flatten := by
  generalize hvalues : arrays.map Value.array = values at h
  induction h generalizing arrays with
  | single v =>
    obtain ⟨items, rfl, rfl⟩ := List.map_eq_singleton_iff.mp hvalues
    rw [List.flatten_singleton]
  | merge _ _ ih ih' =>
    obtain ⟨arrays₁, arrays₂, rfl, h₁, h₂⟩ := List.map_eq_append_iff.mp hvalues
    rw [ih h₁, ih' h₂, overlayEntry, List.flatten_append]

/-- A pile that is an array has an array in it. -/
theorem exists_array (h : Pile values v) {items : List Value} (hv : v = .array items) :
    ∃ xs, .array xs ∈ values := by
  induction h generalizing items with
  | single v => exact ⟨items, hv ▸ List.mem_cons_self⟩
  | @merge lower upper below above _ _ _ ih' =>
    suffices harray : ∃ ys, above = .array ys by
      obtain ⟨ys, hys⟩ := harray
      obtain ⟨xs, hxs⟩ := ih' hys
      exact ⟨xs, List.mem_append_right _ hxs⟩
    cases above with
    | array ys => exact ⟨ys, rfl⟩
    | object fields => cases below <;> cases hv
    | _ => cases hv

/-- A pile of values of one kind is an array exactly if the values are, and then it is all of them
one after the other. -/
theorem eq_array_iff (h : Pile values v) (kinds : ∀ x ∈ values, ∀ y ∈ values, SameKind x y)
    {items : List Value} : v = .array items ↔
      ∃ arrays : List (List Value), values = arrays.map Value.array ∧ items = arrays.flatten := by
  constructor
  · intro hv
    obtain ⟨xs, hxs⟩ := h.exists_array hv
    have hall : ∀ x ∈ values, ∃ ys, x = array ys := by
      intro x hx
      cases kinds x hx _ hxs with
      | plain _ hplain => exact hplain.elim
      | array ys _ => exact ⟨ys, rfl⟩
    obtain ⟨arrays, harrays⟩ := exists_forall₂_of_forall hall
    obtain rfl : values = arrays.map array := by
      rwa [← List.forall₂_map_right_iff, List.forall₂_eq_eq_eq] at harrays
    rw [h.eq_of_arrays, array.injEq] at hv
    exact ⟨arrays, rfl, hv.symm⟩
  · rintro ⟨arrays, rfl, rfl⟩
    exact h.eq_of_arrays

end Pile

/-! ## Values in layers -/

/-- What is seen of a value along paths is what layers show, the topmost first: nothing where no
layer has anything, a value that is neither object nor array from the topmost layer that has the
path, and an array from the arrays of all layers, the lowest first. -/
structure Shows (v : Value) (layers : List Value) : Prop where
  none_iff : ∀ path, v.at? path = none ↔ ∀ layer ∈ layers, layer.at? path = none
  plain_iff : ∀ path x, x.IsPlain →
    (v.at? path = some x ↔ layers.findSome? (·.at? path) = some x)
  array_iff : ∀ path items, v.at? path = some (.array items) ↔
    ∃ arrays : List (List Value), arrays ≠ [] ∧
      layers.reverse.filterMap (·.at? path) = arrays.map .array ∧ items = arrays.flatten

/-- Consistent layers are what is seen of a pile of them. -/
theorem Pile.shows {layers : List OrderedValue} {v : Value}
    (h : Pile (layers.map OrderedValue.value).reverse v)
    (consistent : ∀ w ∈ layers.map OrderedValue.value, ∀ u ∈ layers.map OrderedValue.value,
      Consistent w u) : v.Shows (layers.map OrderedValue.value) := by
  have kinds : (layers.map OrderedValue.value).reverse.Pairwise OneKind := by
    refine List.pairwise_of_forall_mem_list fun w hw u hu => ?_
    exact (consistent w (List.mem_reverse.mp hw) u (List.mem_reverse.mp hu)).oneKind
  rw [← List.map_reverse] at h kinds
  have hpiles := h.at? kinds
  rw [List.map_reverse] at hpiles
  generalize layers.map OrderedValue.value = layers at consistent hpiles ⊢
  have hlast : ∀ path, (layers.reverse.filterMap (·.at? path)).getLast? =
      layers.findSome? (·.at? path) := by
    intro path
    rw [List.filterMap_reverse, List.getLast?_reverse, List.head?_filterMap]
  have hkinds : ∀ path, ∀ x ∈ layers.reverse.filterMap (·.at? path),
      ∀ y ∈ layers.reverse.filterMap (·.at? path), SameKind x y := by
    intro path x hx y hy
    obtain ⟨w, hw, hwx⟩ := List.mem_filterMap.mp hx
    obtain ⟨u, hu, huy⟩ := List.mem_filterMap.mp hy
    exact consistent w (List.mem_reverse.mp hw) u (List.mem_reverse.mp hu) path x y hwx huy
  refine ⟨fun path => ?_, fun path x hx => ?_, fun path items => ?_⟩
  · rw [(hpiles path).eq_none_iff, List.filterMap_eq_nil_iff]
    simp only [List.mem_reverse]
  · have hpile := hpiles path
    rw [← hlast path]
    cases hv : v.at? path with
    | none =>
      rw [(hpile.eq_none_iff).mp hv]
      exact iff_of_false nofun nofun
    | some w =>
      rw [hv] at hpile
      rw [Option.some.injEq]
      constructor
      · rintro rfl
        exact Pile.getLast?_of_isPlain hpile hx
      · exact fun htop => Pile.eq_of_getLast? hpile htop hx
  · have hpile := hpiles path
    cases hv : v.at? path with
    | none =>
      rw [(hpile.eq_none_iff).mp hv]
      refine iff_of_false nofun ?_
      rintro ⟨arrays, hne, harrays, -⟩
      exact hne (List.map_eq_nil_iff.mp harrays.symm)
    | some w =>
      rw [hv] at hpile
      rw [Option.some.injEq, Pile.eq_array_iff hpile (hkinds path)]
      refine exists_congr fun arrays => ⟨fun ⟨heq, hitems⟩ => ⟨?_, heq, hitems⟩, And.right⟩
      rintro rfl
      exact Pile.ne_nil hpile heq

end CanTables.Document.Value
