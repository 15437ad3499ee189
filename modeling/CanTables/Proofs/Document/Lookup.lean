import CanTables.Proofs.Document.Path

/-!
# CanTables.Proofs.Document.Lookup — what two layers have at a path

What stands at a path of two merged values is said without any condition on their kinds.  A value
of the upper layer that is no object ends every path through it (`Blocks`): what the lower layer has
there is not seen any more.  At every other path the two values that the layers have are merged
(`at?_overlayEntry_of_not_blocks`), and one that only one of them has is there as it is.

`Combines` lists what that comes to at a path, one field for each case.  The cases leave nothing
open: only the merged value is as they say at every path (`eq_overlayEntry_of_combines`).
-/

namespace CanTables.Document.Value

/-! ## Paths that end early -/

/-- On the way along the path, before its end, stands a value that is no object. -/
def Blocks (v : Value) (path : List String) : Prop :=
  ∃ front, front <+: path ∧ front ≠ path ∧ ∃ x, v.at? front = some x ∧ ¬ x.IsObject

theorem not_blocks_nil (v : Value) : ¬ v.Blocks [] := by
  rintro ⟨front, hprefix, hne, -⟩
  exact hne (List.prefix_nil.mp hprefix)

theorem blocks_of_not_object {v : Value} (h : ¬ v.IsObject) (key : String) (path : List String) :
    v.Blocks (key :: path) :=
  ⟨[], List.nil_prefix, List.cons_ne_nil key path |>.symm, v, rfl, h⟩

/-- An object blocks a path exactly if what it has under the first key blocks the rest. -/
theorem blocks_object_cons (fields : Fields) (key : String) (path : List String) :
    (object fields).Blocks (key :: path) ↔ ∃ v, fields.get? key = some v ∧ v.Blocks path := by
  constructor
  · rintro ⟨front, hprefix, hne, x, hx, hobject⟩
    rcases List.prefix_cons_iff.mp hprefix with rfl | ⟨rest, rfl, hrest⟩
    · cases hx
      exact absurd ⟨fields, rfl⟩ hobject
    · rw [at?_cons_object, Option.bind_eq_some_iff] at hx
      obtain ⟨v, hv, hx⟩ := hx
      exact ⟨v, hv, rest, hrest, fun heq => hne (congrArg _ heq), x, hx, hobject⟩
  · rintro ⟨v, hv, front, hprefix, hne, x, hx, hobject⟩
    refine ⟨key :: front, ?_, ?_, x, ?_, hobject⟩
    · exact List.cons_prefix_cons.mpr ⟨rfl, hprefix⟩
    · exact fun heq => hne (List.cons.inj heq).2
    · rw [at?_cons_object, hv]
      exact hx

/-- Only an object leaves the way to longer paths open. -/
theorem isObject_of_not_blocks {v : Value} {key : String} {path : List String}
    (h : ¬ v.Blocks (key :: path)) : v.IsObject := by
  by_contra hobject
  exact h (blocks_of_not_object hobject key path)

/-- At a path that is blocked is nothing. -/
theorem at?_of_blocks {v : Value} {path : List String} (h : v.Blocks path) :
    v.at? path = none := by
  induction path generalizing v with
  | nil => exact absurd h v.not_blocks_nil
  | cons key path ih =>
    by_cases hobject : v.IsObject
    · obtain ⟨fields, rfl⟩ := hobject
      obtain ⟨x, hx, hblocks⟩ := (blocks_object_cons fields key path).mp h
      rw [at?_cons_object, hx]
      exact ih hblocks
    · exact at?_cons_of_not_object (not_exists.mp hobject) key path

/-! ## Two layers along a path -/

/-- What blocks a path of the upper layer blocks it in both. -/
theorem at?_overlayEntry_of_blocks (below above : OrderedValue) {path : List String}
    (h : above.value.Blocks path) :
    (overlayEntry below above).at? path = none := by
  induction path generalizing below above with
  | nil => exact absurd h above.value.not_blocks_nil
  | cons key path ih =>
    rcases above.object_or with ⟨upper, rfl⟩ | hupper
    · rcases below.object_or with ⟨lower, rfl⟩ | hlower
      · obtain ⟨y, hy, hblocks⟩ := (blocks_object_cons upper key path).mp h
        rw [overlayEntry_object, at?_cons_object, get?_overlayFields, hy]
        cases hx : lower.fields.get? key with
        | none => exact at?_of_blocks hblocks
        | some x => exact ih (lower.valueAt hx) (upper.valueAt hy) hblocks
      · rw [overlayEntry_of_not_object hlower]
        exact at?_of_blocks h
    · apply at?_cons_of_not_object
      exact overlayEntry_ne_object below hupper

/-- Where the upper layer does not block the path, what the layers have there is merged, whatever
stands on the way in the lower one. -/
theorem at?_overlayEntry_of_not_blocks (below above : OrderedValue) {path : List String}
    (h : ¬ above.value.Blocks path) :
    (overlayEntry below above).at? path =
      Option.merge overlayEntry (below.value.at? path) (above.value.at? path) := by
  induction path generalizing below above with
  | nil => rfl
  | cons key path ih =>
    rcases above.object_or with ⟨upper, rfl⟩ | hupper
    · rcases below.object_or with ⟨lower, rfl⟩ | hlower
      · rw [overlayEntry_object, at?_cons_object, at?_cons_object, at?_cons_object,
          get?_overlayFields]
        cases hy : upper.fields.get? key with
        | none =>
          rw [Option.merge_none_right]
          exact Option.merge_none_right.symm
        | some y =>
          cases hx : lower.fields.get? key with
          | none =>
            rw [Option.merge_none_left]
            exact Option.merge_none_left.symm
          | some x =>
            apply ih (lower.valueAt hx) (upper.valueAt hy)
            exact fun hblocks => h ((blocks_object_cons upper key path).mpr ⟨y, hy, hblocks⟩)
      · -- Below is nothing at any longer path, and the upper layer stands as it is.
        rw [overlayEntry_of_not_object hlower, at?_cons_of_not_object hlower,
          Option.merge_none_left]
    · obtain ⟨fields, heq⟩ := isObject_of_not_blocks h
      exact absurd heq (hupper fields)

/-! ## Case by case -/

/-- How what a value has at a path comes from a lower and an upper layer. -/
structure Combines (below above both : Value) (path : List String) : Prop where
  hidden : above.Blocks path → both.at? path = none
  kept : ¬ above.Blocks path → above.at? path = none → both.at? path = below.at? path
  arrays : ∀ xs ys, below.at? path = some (.array xs) → above.at? path = some (.array ys) →
    both.at? path = some (.array (xs ++ ys))
  objects : ∀ m n, below.at? path = some (.object m) → above.at? path = some (.object n) →
    ∃ l : Fields, both.at? path = some (.object l) ∧ l.Ordered ∧
      ∀ key, key ∈ l.keys ↔ key ∈ Keyed.keys m ∨ key ∈ Keyed.keys n
  replaced : ∀ y, above.at? path = some y →
    (¬ ∃ xs ys, below.at? path = some (.array xs) ∧ y = .array ys) →
    (¬ ∃ m n, below.at? path = some (.object m) ∧ y = .object n) → both.at? path = some y

theorem overlayEntry_combines (below above : OrderedValue) (path : List String) :
    Combines below above (overlayEntry below above) path := by
  -- At a path where the upper layer has something, nothing of it stands in the way.
  have hopen : ∀ y, above.value.at? path = some y → (overlayEntry below above).at? path =
      Option.merge overlayEntry (below.value.at? path) (some y) := by
    intro y hy
    rw [← hy]
    refine at?_overlayEntry_of_not_blocks below above fun hblocks => ?_
    exact Option.some_ne_none y (hy.symm.trans (at?_of_blocks hblocks))
  refine ⟨at?_overlayEntry_of_blocks below above, ?_, ?_, ?_, ?_⟩
  · intro hblocks hnone
    rw [at?_overlayEntry_of_not_blocks below above hblocks, hnone, Option.merge_none_right]
  · intro xs ys hx hy
    rw [hopen _ hy, hx, Option.merge_some_some, overlayEntry]
  · intro m n hx hy
    rw [hopen _ hy, hx, Option.merge_some_some, overlayEntry_object]
    let m : OrderedObject := ⟨m, ordered_of_at? below hx⟩
    let n : OrderedObject := ⟨n, ordered_of_at? above hy⟩
    exact ⟨_, rfl, (m.overlay n).keys_ordered, fun key => mem_keys_overlayFields m n⟩
  · intro y hy harrays hobjects
    rw [hopen y hy]
    cases hx : below.value.at? path with
    | none => exact Option.merge_none_left
    | some x =>
      rw [Option.merge_some_some, overlayEntry_of_not_merging]
      · rintro ⟨xs, ys, rfl, rfl⟩
        exact harrays ⟨xs, ys, hx, rfl⟩
      · rintro ⟨m, n, rfl, rfl⟩
        exact hobjects ⟨m, n, hx, rfl⟩

/-- What holds along a path that begins with a key holds along the rest of what stands there. -/
theorem Combines.of_get? {m n l : Fields} {key : String} {x y z : Value}
    (hx : m.get? key = some x) (hy : n.get? key = some y) (hz : l.get? key = some z)
    {path : List String} (h : Combines (.object m) (.object n) (.object l) (key :: path)) :
    Combines x y z path := by
  have hm : (object m).at? (key :: path) = x.at? path := by rw [at?_cons_object, hx]; rfl
  have hn : (object n).at? (key :: path) = y.at? path := by rw [at?_cons_object, hy]; rfl
  have hl : (object l).at? (key :: path) = z.at? path := by rw [at?_cons_object, hz]; rfl
  have hblocks : (object n).Blocks (key :: path) ↔ y.Blocks path := by
    rw [blocks_object_cons, hy]
    simp only [Option.some.injEq, exists_eq_left']
  obtain ⟨hidden, kept, arrays, objects, replaced⟩ := h
  rw [hm, hn, hl, hblocks] at *
  exact ⟨hidden, kept, arrays, objects, replaced⟩

/-- Under a key that the upper object does not have is what the lower one has there. -/
theorem Combines.get?_of_none {m n l : Fields} {key : String} (hy : n.get? key = none)
    (h : Combines (.object m) (.object n) (.object l) [key]) : l.get? key = m.get? key := by
  have hblocks : ¬ (object n).Blocks [key] := by
    rw [blocks_object_cons, hy]
    exact fun hex => nomatch hex.choose_spec.1
  have hkept := h.kept hblocks ((at?_singleton n key).trans hy)
  rwa [at?_singleton, at?_singleton] at hkept

/-- Under a key that only the upper object has is what it has there. -/
theorem Combines.get?_of_below_none {m n l : Fields} {key : String} {y : Value}
    (hx : m.get? key = none) (hy : n.get? key = some y)
    (h : Combines (.object m) (.object n) (.object l) [key]) : l.get? key = some y := by
  have hbelow : ∀ x, (object m).at? [key] ≠ some x := by
    intro x
    rw [at?_singleton, hx]
    exact (Option.some_ne_none x).symm
  rw [← at?_singleton]
  apply h.replaced y ((at?_singleton n key).trans hy)
  · exact fun ⟨xs, _, heq, _⟩ => hbelow (.array xs) heq
  · exact fun ⟨fields, _, heq, _⟩ => hbelow (.object fields) heq

/-- Only the merged value has at every path what the cases say. -/
theorem eq_overlayEntry_of_combines (below above both : OrderedValue)
    (h : ∀ path, Combines below above both path) : both.value = overlayEntry below above := by
  induction hsize : sizeOf above.value using Nat.strongRecOn generalizing below above both with
  | ind size ih =>
    -- Where nothing is merged, the upper value stands.
    have hreplaced : (¬ ∃ xs ys, below.value = .array xs ∧ above.value = .array ys) →
        (¬ ∃ m n, below.value = .object m ∧ above.value = .object n) →
          both.value = overlayEntry below above := by
      intro harrays hobjects
      rw [overlayEntry_of_not_merging harrays hobjects]
      apply Option.some.inj
      apply (h []).replaced above rfl
      · exact fun ⟨xs, ys, hx, hy⟩ => harrays ⟨xs, ys, Option.some.inj hx, hy⟩
      · exact fun ⟨m, n, hx, hy⟩ => hobjects ⟨m, n, Option.some.inj hx, hy⟩
    by_cases harrays : ∃ xs ys, below.value = .array xs ∧ above.value = .array ys
    · obtain ⟨xs, ys, hbelow, habove⟩ := harrays
      rw [hbelow, habove, overlayEntry]
      exact Option.some.inj ((h []).arrays xs ys (congrArg some hbelow) (congrArg some habove))
    rcases below.object_or with ⟨m, rfl⟩ | hbelow
    · rcases above.object_or with ⟨n, rfl⟩ | habove
      · obtain ⟨fields, hfields, hordered, hkeys⟩ := (h []).objects m n rfl rfl
        rcases both.object_or with ⟨l, rfl⟩ | hboth
        · obtain rfl : l.fields = fields := object.inj (Option.some.inj hfields)
          rw [overlayEntry_object]
          -- Both have the same under every key.
          refine congrArg object
            (Keyed.eq_of_get?_eq hordered (m.overlay n).keys_ordered fun key => ?_)
          rw [get?_overlayFields]
          cases hy : n.fields.get? key with
          | none => rw [(h [key]).get?_of_none hy, Option.merge_none_right]
          | some y =>
            cases hx : m.fields.get? key with
            | none => rw [(h [key]).get?_of_below_none hx hy, Option.merge_none_left]
            | some x =>
              have hmem : key ∈ Keyed.keys l.fields :=
                (hkeys key).mpr (.inl (Keyed.isSome_get?_iff.mp (Option.isSome_of_mem hx)))
              obtain ⟨z, hz⟩ := Option.isSome_iff_exists.mp (Keyed.isSome_get?_iff.mpr hmem)
              have hless : sizeOf y < size := hsize ▸ sizeOf_lt_of_get? hy
              rw [hz, Option.merge_some_some]
              refine congrArg some (ih (sizeOf y) hless (m.valueAt hx) (n.valueAt hy)
                (l.valueAt hz) (fun path => ?_) rfl)
              exact .of_get? hx hy hz (h (key :: path))
        · exact absurd (Option.some.inj hfields) (hboth fields)
      · exact hreplaced harrays fun ⟨_, n, _, hn⟩ => habove n hn
    · exact hreplaced harrays fun ⟨m, _, hm, _⟩ => hbelow m hm

/-- Two layers neither lose nor invent values: at every path stands nothing if the upper layer has
a value that is no object on the way, what is below if it has nothing, both arrays one after the
other, an object with the keys of both objects, and in every other case what the upper layer has.
No other value is like that at every path. -/
theorem overlay_combines {lower upper : Fields} (hlower : (object lower).Ordered)
    (hupper : (object upper).Ordered) :
    (∀ path, Combines (.object lower) (.object upper)
      (overlay (.object lower) (.object upper)) path) ∧
    ∀ v : Value, v.Ordered → (∀ path, Combines (.object lower) (.object upper) v path) →
      v = overlay (.object lower) (.object upper) := by
  rw [overlay_eq_overlayEntry ⟨lower, rfl⟩ ⟨upper, rfl⟩]
  constructor
  · exact overlayEntry_combines ⟨_, hlower⟩ ⟨_, hupper⟩
  · intro v hv h
    exact eq_overlayEntry_of_combines ⟨_, hlower⟩ ⟨_, hupper⟩ ⟨v, hv⟩ h

/-- A layer with a bus, a message and a function that is called in every round. -/
def chassisLayer : Fields :=
  [("buses", .object [("hs", .object [("speed", .int 500000)])]),
    ("loopers", .array [.text "poll"]),
    ("messages", .object [("16", .object [("name", .text "door")])])]

/-- A layer that attaches the bus to a controller, adds a function and has no messages. -/
def boardLayer : Fields :=
  [("buses", .object [("hs", .object [("controller", .int 1)])]),
    ("loopers", .array [.text "blink"]), ("messages", .null)]

theorem overlay_combines_chassis_board :
    ((object chassisLayer).Ordered ∧ (object boardLayer).Ordered) ∧
    let both := overlay (.object chassisLayer) (.object boardLayer)
    both.at? ["messages", "16"] = none ∧
    both.at? ["buses", "hs", "speed"] = some (.int 500000) ∧
    both.at? ["loopers"] = some (.array [.text "poll", .text "blink"]) ∧
    (∃ l : Fields, both.at? ["buses", "hs"] = some (.object l) ∧ "controller" ∈ l.keys ∧
      "speed" ∈ l.keys) ∧
    both.at? ["messages"] = some .null := by
  have hlower : (object chassisLayer).Ordered := by decide
  have hupper : (object boardLayer).Ordered := by decide
  have h := (overlay_combines hlower hupper).1
  have hnull : (object boardLayer).at? ["messages"] = some .null := by rfl
  have hbuses : ∃ l : Fields, (overlay (.object chassisLayer) (.object boardLayer)).at?
      ["buses", "hs"] = some (.object l) ∧ "controller" ∈ l.keys ∧ "speed" ∈ l.keys := by
    obtain ⟨l, hl, -, hkeys⟩ := (h ["buses", "hs"]).objects [("speed", .int 500000)]
      [("controller", .int 1)] rfl rfl
    exact ⟨l, hl, (hkeys _).mpr (.inr (by decide)), (hkeys _).mpr (.inl (by decide))⟩
  refine ⟨⟨hlower, hupper⟩, ?_, ?_, ?_, hbuses, ?_⟩
  · apply (h ["messages", "16"]).hidden
    refine ⟨["messages"], by decide, by decide, .null, hnull, ?_⟩
    rintro ⟨fields, heq⟩
    cases heq
  · apply (h ["buses", "hs", "speed"]).kept
    · intro hblocks
      obtain ⟨v, hv, hblocks⟩ := (blocks_object_cons _ _ _).mp hblocks
      cases hv
      obtain ⟨v, hv, hblocks⟩ := (blocks_object_cons _ _ _).mp hblocks
      cases hv
      obtain ⟨v, hv, -⟩ := (blocks_object_cons _ _ _).mp hblocks
      cases hv
    · rfl
  · exact (h ["loopers"]).arrays [.text "poll"] [.text "blink"] rfl rfl
  · refine (h ["messages"]).replaced .null hnull ?_ ?_
    · rintro ⟨xs, ys, -, heq⟩
      cases heq
    · rintro ⟨m, n, -, heq⟩
      cases heq

end CanTables.Document.Value
