import CanTables.Proofs.Document.Overlay
import Mathlib.Data.List.Forall2
import Mathlib.Data.List.Induction
import Mathlib.Data.List.Perm.Subperm
import Mathlib.Data.Set.List

/-!
# CanTables.Proofs.Document.Pile — several layers under one key

More than two layers can be laid over each other two by two in several ways, and the result may
depend on the way: an object over a scalar over an object is the upper object alone or both objects
merged.  A `Pile` is any such result.  Layers are `Settled` if they are objects for which the way
does not matter: two objects always are, and so are objects that have values of one kind under every
key (`settled_of_oneKind`).
-/

namespace CanTables.Document.Value

/-! ## Layers put on top of each other -/

/-- What values make up together, the lowest first, each put on what the ones below make up. -/
def layered (values : List Value) : Option Value :=
  values.foldl (fun below above => some (below.elim above (overlay · above))) none

theorem layered_concat (values : List Value) (above : Value) :
    layered (values ++ [above]) = some ((layered values).elim above (overlay · above)) := by
  rw [layered, List.foldl_append]
  rfl

/-- Ordered values make up an ordered one. -/
theorem layered_ordered (values : List OrderedValue) :
    ∀ v, layered (values.map OrderedValue.value) = some v → v.Ordered := by
  induction values using List.reverseRecOn with
  | nil => exact fun v hv => nomatch hv
  | append_singleton rest above ih =>
    intro v hv
    rw [List.map_append, List.map_singleton, layered_concat] at hv
    cases hlayers : layered (rest.map OrderedValue.value) with
    | none =>
      rw [hlayers] at hv
      cases hv
      exact above.ordered
    | some below =>
      rw [hlayers] at hv
      cases hv
      exact ordered_overlay (ih below hlayers) above.ordered

/-- A value that values make up, the lowest first, merged two by two in some way. -/
inductive Pile : List Value → Value → Prop where
  | single (v : Value) : Pile [v] v
  | merge {lower upper : List Value} {below above : Value} (hbelow : Pile lower below)
      (habove : Pile upper above) : Pile (lower ++ upper) (overlayEntry below above)

/-- What stands under a key that values are given for: nothing if there are none. -/
def Piles (values : List Value) : Option Value → Prop
  | none => values = []
  | some v => Pile values v

theorem Pile.ne_nil {values : List Value} {v : Value} (h : Pile values v) : values ≠ [] := by
  induction h with
  | single v => exact List.cons_ne_nil v []
  | merge _ _ ih _ =>
    intro heq
    exact ih (List.append_eq_nil_iff.mp heq).1

theorem Piles.eq_none_iff {values : List Value} {o : Option Value} (h : Piles values o) :
    o = none ↔ values = [] := by
  cases o with
  | none =>
    constructor
    · exact fun _ => h
    · exact fun _ => rfl
  | some v =>
    constructor
    · exact fun heq => nomatch heq
    · exact fun heq => absurd heq (Pile.ne_nil h)

theorem Piles.merge {lower upper : List Value} {o o' : Option Value} (h : Piles lower o)
    (h' : Piles upper o') : Piles (lower ++ upper) (Option.merge overlayEntry o o') := by
  cases o with
  | none =>
    have hlower : lower = [] := h
    rw [hlower, List.nil_append, Option.merge_none_left]
    exact h'
  | some below =>
    cases o' with
    | none =>
      have hupper : upper = [] := h'
      rw [hupper, List.append_nil, Option.merge_none_right]
      exact h
    | some above => exact Pile.merge h h'

theorem Pile.ordered (values : List OrderedValue) {v : Value}
    (h : Pile (values.map OrderedValue.value) v) : v.Ordered := by
  generalize hlist : values.map OrderedValue.value = list at h
  induction h generalizing values with
  | single v =>
    obtain ⟨v, rfl, rfl⟩ := List.map_eq_singleton_iff.mp hlist
    exact v.ordered
  | merge _ _ ih ih' =>
    obtain ⟨lower, upper, rfl, hlower, hupper⟩ := List.map_eq_append_iff.mp hlist
    exact ordered_overlayEntry (ih lower hlower) (ih' upper hupper)

/-! ## Objects -/

/-- A value that is an object. -/
def IsObject (v : Value) : Prop := ∃ fields, v = object fields

theorem Pile.isObject {values : List Value} {v : Value} (h : Pile values v)
    (objects : ∀ w ∈ values, w.IsObject) : v.IsObject := by
  induction h with
  | single v => exact objects v List.mem_cons_self
  | merge hbelow habove ih ih' =>
    obtain ⟨lower, rfl⟩ := ih fun w hw => objects w (List.mem_append_left _ hw)
    obtain ⟨upper, rfl⟩ := ih' fun w hw => objects w (List.mem_append_right _ hw)
    exact ⟨_, overlayEntry_object lower upper⟩

theorem overlay_eq_overlayEntry {v w : Value} (hv : v.IsObject) (hw : w.IsObject) :
    overlay v w = overlayEntry v w := by
  obtain ⟨lower, rfl⟩ := hv
  obtain ⟨upper, rfl⟩ := hw
  rw [overlay_object, overlayEntry_object]

/-- Objects that are piles themselves are piled up by putting them on top of each other. -/
theorem piles_layered {groups : List (List Value)} {values : List Value}
    (h : List.Forall₂ Pile groups values) (objects : ∀ v ∈ values, v.IsObject) :
    Piles groups.flatten (layered values) := by
  -- What has been put together so far is a pile itself, or nothing yet.
  suffices hacc : ∀ lower o, Piles lower o → (∀ v, o = some v → v.IsObject) →
      Piles (lower ++ groups.flatten)
        (values.foldl (fun below above => some (below.elim above (overlay · above))) o) from
    hacc [] none rfl fun v heq => nomatch heq
  induction h with
  | nil =>
    intro lower o ho _
    rw [List.flatten_nil, List.append_nil]
    exact ho
  | @cons group v groups values hgroup _ ih =>
    intro lower o ho hobject
    obtain ⟨hv, hvalues⟩ := List.forall_mem_cons.mp objects
    rw [List.flatten_cons, ← List.append_assoc, List.foldl_cons]
    -- On an object, putting on top is merging.
    have hmerge : some (o.elim v (overlay · v)) = Option.merge overlayEntry o (some v) := by
      cases o with
      | none => rfl
      | some w =>
        show some (overlay w v) = some (overlayEntry w v)
        rw [overlay_eq_overlayEntry (hobject w rfl) hv]
    refine ih hvalues (lower ++ group) _ ?_ ?_
    · rw [hmerge]
      exact ho.merge hgroup
    · intro w hw
      cases o with
      | none =>
        cases hw
        exact hv
      | some u =>
        cases hw
        obtain ⟨below, rfl⟩ := hobject u rfl
        obtain ⟨above, rfl⟩ := hv
        exact ⟨_, overlay_object below above⟩

/-! ## Where the way does not matter -/

/-- Objects of which no part, in any order, depends on the way in which it is piled up. -/
structure Settled (values : List Value) : Prop where
  objects : ∀ v ∈ values, v.IsObject
  unique : ∀ part v w, List.Subperm part values → Pile part v → Pile part w → v = w

theorem Settled.of_subperm {values part : List Value} (h : Settled values)
    (hpart : List.Subperm part values) : Settled part where
  objects := fun v hv => h.objects v (hpart.subset hv)
  unique := fun _ v w hsub => h.unique _ v w (hsub.trans hpart)

/-- What is piled up from two parts has one value in each at least. -/
theorem Pile.length_pos {values : List Value} {v : Value} (h : Pile values v) :
    0 < values.length := List.length_pos_iff.mpr h.ne_nil

theorem Pile.eq_of_singleton {a v : Value} (h : Pile [a] v) : v = a := by
  generalize hlist : [a] = values at h
  cases h with
  | single => exact (List.singleton_inj.mp hlist).symm
  | merge hbelow habove =>
    have hlength := congrArg List.length hlist
    rw [List.length_singleton, List.length_append] at hlength
    have hlower := hbelow.length_pos
    have hupper := habove.length_pos
    omega

theorem Pile.eq_of_pair {a b v : Value} (h : Pile [a, b] v) : v = overlayEntry a b := by
  generalize hlist : [a, b] = values at h
  cases h with
  | single => cases hlist
  | @merge lower upper below above hbelow habove =>
    have hlength := congrArg List.length hlist
    rw [List.length_append] at hlength
    have hlower := hbelow.length_pos
    have hupper := habove.length_pos
    have hsplit : [a] = lower ∧ [b] = upper :=
      List.append_inj hlist (by simp only [List.length_cons, List.length_nil] at *; omega)
    obtain ⟨rfl, rfl⟩ := hsplit
    rw [hbelow.eq_of_singleton, habove.eq_of_singleton]

/-- Two objects are merged in one way only. -/
theorem settled_of_length_le_two {values : List Value} (h : values.length ≤ 2)
    (objects : ∀ v ∈ values, v.IsObject) : Settled values where
  objects := objects
  unique := by
    intro part v w hpart hv hw
    have hlength : part.length ≤ 2 := Nat.le_trans hpart.length_le h
    match part, hlength with
    | [], _ => exact absurd rfl hv.ne_nil
    | [a], _ => rw [hv.eq_of_singleton, hw.eq_of_singleton]
    | [a, b], _ => rw [hv.eq_of_pair, hw.eq_of_pair]

/-! ## Values of one kind -/

/-- Two values of one kind, and if they are objects, with values of one kind under every key of
both. -/
inductive OneKind : Value → Value → Prop where
  | plain {v w : Value} (hv : v.IsPlain) (hw : w.IsPlain) : OneKind v w
  | array (xs ys : List Value) : OneKind (.array xs) (.array ys)
  | object {m n : Fields}
      (h : ∀ key x y, m.get? key = some x → n.get? key = some y → OneKind x y) :
      OneKind (.object m) (.object n)

theorem OneKind.symm {v w : Value} (h : OneKind v w) : OneKind w v := by
  induction h with
  | plain hv hw => exact .plain hw hv
  | array xs ys => exact .array ys xs
  | object _ ih => exact .object fun key x y hx hy => ih key y x hy hx

/-- What is merged from values of one kind is of that kind. -/
theorem OneKind.merge {a b : OrderedValue} {c : Value} (hac : OneKind a c) (hbc : OneKind b c) :
    OneKind (overlayEntry a b) c := by
  obtain ⟨a, ha⟩ := a
  obtain ⟨b, hb⟩ := b
  dsimp only at hac hbc ⊢
  induction hbc generalizing a with
  | plain hv hw =>
    rw [overlayEntry_plain a hv]
    exact .plain hv hw
  | array ys zs =>
    cases hac with
    | plain _ hw => exact hw.elim
    | array xs _ =>
      rw [overlayEntry]
      exact .array _ zs
  | @object n l hnl ih =>
    cases hac with
    | plain _ hw => exact hw.elim
    | @object m _ hml =>
      rw [overlayEntry_object]
      refine .object fun key x y hx hy => ?_
      rw [get?_overlayFields ⟨m, ha⟩ ⟨n, hb⟩] at hx
      cases hmx : m.get? key with
      | none =>
        rw [hmx, Option.merge_none_left] at hx
        exact hnl key x y hx hy
      | some u =>
        cases hnx : n.get? key with
        | none =>
          rw [hmx, hnx, Option.merge_none_right, Option.some.injEq] at hx
          rw [← hx]
          exact hml key u y hmx hy
        | some v =>
          rw [hmx, hnx, Option.merge_some_some, Option.some.injEq] at hx
          rw [← hx]
          exact ih key v y hnx hy u (ordered_of_get? ha hmx) (hml key u y hmx hy)
            (ordered_of_get? hb hnx)

/-- A value that hides nothing below it from the value above it: where that one is an array or an
object, so is this one, and so on under every key of both. -/
inductive Transparent : Value → Value → Prop where
  | plain {v w : Value} (hw : w.IsPlain) : Transparent v w
  | array (xs ys : List Value) : Transparent (.array xs) (.array ys)
  | object {m n : Fields}
      (h : ∀ key x y, m.get? key = some x → n.get? key = some y → Transparent x y) :
      Transparent (.object m) (.object n)

theorem OneKind.transparent {v w : Value} (h : OneKind v w) : Transparent v w := by
  induction h with
  | plain _ hw => exact .plain hw
  | array xs ys => exact .array xs ys
  | object _ ih => exact .object ih

/-- A value that hides nothing, and the one above it, are put on a third in one way only. -/
theorem Transparent.overlayEntry_assoc (a : OrderedValue) {b c : OrderedValue}
    (h : Transparent b c) :
    overlayEntry (overlayEntry a b) c = overlayEntry a (overlayEntry b c) := by
  obtain ⟨b, hb⟩ := b
  obtain ⟨c, hc⟩ := c
  dsimp only at h ⊢
  induction h generalizing a with
  | plain hw => rw [overlayEntry_plain _ hw, overlayEntry_plain _ hw, overlayEntry_plain _ hw]
  | array ys zs =>
    cases a.value with
    | array xs => simp only [overlayEntry, List.append_assoc]
    | _ => simp only [overlayEntry]
  | @object n l hnl ih =>
    rcases a.object_or with ⟨m, rfl⟩ | hnot
    · let n : OrderedObject := ⟨n, hb⟩
      let l : OrderedObject := ⟨l, hc⟩
      show overlayEntry (overlayEntry (.object m.fields) (.object n.fields)) (.object l.fields) =
        overlayEntry (.object m.fields) (overlayEntry (.object n.fields) (.object l.fields))
      rw [overlayEntry_object, overlayEntry_object, overlayEntry_object, overlayEntry_object]
      refine congrArg Value.object (Keyed.eq_of_get?_eq ((m.overlay n).overlay l).keys_ordered
        (m.overlay (n.overlay l)).keys_ordered fun key => ?_)
      rw [get?_overlayFields (m.overlay n) l, get?_overlayFields m n,
        get?_overlayFields m (n.overlay l), get?_overlayFields n l]
      cases hmx : m.fields.get? key with
      | none => rw [Option.merge_none_left, Option.merge_none_left]
      | some u =>
        cases hnx : n.fields.get? key with
        | none => rw [Option.merge_none_right, Option.merge_none_left]
        | some v =>
          cases hlx : l.fields.get? key with
          | none => rw [Option.merge_none_right, Option.merge_none_right]
          | some w =>
            rw [Option.merge_some_some, Option.merge_some_some, Option.merge_some_some,
              Option.merge_some_some, ih key v w hnx hlx (m.valueAt hmx) (n.valueAt hnx).ordered
                (l.valueAt hlx).ordered]
    · rw [overlayEntry_of_not_object hnot, overlayEntry_object, overlayEntry_of_not_object hnot]

/-- Putting values of one kind on a value one by one, or all of them at once. -/
theorem foldl_overlayEntry (x : OrderedValue) {b : OrderedValue} {rest : List OrderedValue}
    (kinds : ((b :: rest).map OrderedValue.value).Pairwise OneKind) :
    overlayEntry x ((rest.map OrderedValue.value).foldl overlayEntry b) =
      (rest.map OrderedValue.value).foldl overlayEntry (overlayEntry x b) := by
  induction rest generalizing b with
  | nil => rfl
  | cons c rest ih =>
    obtain ⟨hbs, hcs, htail⟩ := List.pairwise_cons.mp kinds |>.imp_right List.pairwise_cons.mp
    have hbc : OneKind b c := hbs c List.mem_cons_self
    rw [List.map_cons, List.foldl_cons, List.foldl_cons, hbc.transparent.overlayEntry_assoc x]
    refine ih (b := b.overlayEntry c) (List.pairwise_cons.mpr ⟨fun d hd => ?_, htail⟩)
    exact .merge (hbs d (List.mem_cons_of_mem _ hd)) (hcs d hd)

/-- Values of one kind are piled up in one way only. -/
theorem Pile.eq_foldl {a : OrderedValue} {rest : List OrderedValue} {v : Value}
    (h : Pile ((a :: rest).map OrderedValue.value) v)
    (kinds : ((a :: rest).map OrderedValue.value).Pairwise OneKind) :
    v = (rest.map OrderedValue.value).foldl overlayEntry a := by
  generalize hlist : (a :: rest).map OrderedValue.value = list at h
  induction h generalizing a rest with
  | single v =>
    obtain ⟨rfl, hrest⟩ := List.cons.inj hlist
    rw [hrest]
    rfl
  | @merge lower upper below above hbelow habove ih ih' =>
    obtain ⟨lower, upper, hsplit, rfl, rfl⟩ := List.map_eq_append_iff.mp hlist
    rw [hsplit, List.map_append] at kinds
    obtain ⟨klower, kupper, -⟩ := List.pairwise_append.mp kinds
    obtain ⟨first, lower, rfl⟩ := List.exists_cons_of_ne_nil
      fun hnil => hbelow.ne_nil (congrArg (List.map OrderedValue.value) hnil)
    obtain ⟨second, upper, rfl⟩ := List.exists_cons_of_ne_nil
      fun hnil => habove.ne_nil (congrArg (List.map OrderedValue.value) hnil)
    rw [List.cons_append, List.cons.injEq] at hsplit
    obtain ⟨rfl, rfl⟩ := hsplit
    rw [List.map_append, List.foldl_append, List.map_cons, List.foldl_cons, ← ih klower rfl,
      ih' kupper rfl]
    exact foldl_overlayEntry ⟨below, hbelow.ordered⟩ kupper

/-- Objects of one kind are settled. -/
theorem settled_of_oneKind {values : List OrderedValue} (objects : ∀ v ∈ values, v.value.IsObject)
    (kinds : (values.map OrderedValue.value).Pairwise OneKind) :
    Settled (values.map OrderedValue.value) where
  objects := List.forall_mem_map.mpr objects
  unique := by
    rintro part v w ⟨sub, hperm, hsub⟩ hv hw
    -- What is piled up is some of the values, so it is ordered.
    have hordered : ∀ u ∈ part, u.Ordered := by
      intro u hu
      obtain ⟨u, -, rfl⟩ := List.mem_map.mp (hsub.subset (hperm.mem_iff.mpr hu))
      exact u.ordered
    have hkinds : part.Pairwise OneKind :=
      (hperm.pairwise_iff OneKind.symm).mp (kinds.sublist hsub)
    lift part to List OrderedValue using hordered
    obtain ⟨first, rest, rfl⟩ := List.exists_cons_of_ne_nil
      fun hnil => hv.ne_nil (congrArg (List.map OrderedValue.value) hnil)
    rw [hv.eq_foldl hkinds, hw.eq_foldl hkinds]

end CanTables.Document.Value
