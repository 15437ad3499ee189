import CanTables.Network.Import
import CanTables.Proofs.Document.Overlay
import CanTables.Proofs.Journal

/-!
# CanTables.Proofs.Network.Layout — what a database says about a signal

Six fields of a database signal are taken over as attributes, and the key by which a mapping refers
to the signal becomes its generic name.  A signal can be described exactly if all six fields are
there and hold numbers (`DatabaseSignal.exists_describe_iff`), and looking an attribute up in the
description reads the field behind it (`DatabaseSignal.fields_of_describe`).
-/

namespace CanTables.Network

open Document Numeric Text

/-! ## Layout fields -/

/-- The whole number that a field holds between blanks. -/
def wordOf? (text : Option String) : Option UInt32 :=
  text.bind fun text => readWord? (trim text.toList)

/-- The number that a field holds between blanks. -/
def numberOf? (text : Option String) : Option Double :=
  text.bind fun text => readFree? (trim text.toList)

/-- A field of a database signal that is taken over. -/
inductive LayoutField where
  | bitPosition
  | bitSize
  | factor
  | offset
  | minimum
  | maximum
  deriving DecidableEq, Repr

namespace LayoutField

/-- All layout fields. -/
def all : List LayoutField := [bitPosition, bitSize, factor, offset, minimum, maximum]

/-- The attribute that a field is taken over as. -/
def key : LayoutField → String
  | bitPosition => "bit_position"
  | bitSize => "bit_size"
  | factor => "factor"
  | offset => "offset"
  | minimum => "min_value"
  | maximum => "max_value"

/-- The text of a field. -/
def text? (f : LayoutField) (x : DatabaseSignal) : Option String :=
  match f with
  | bitPosition => x.bitPosition
  | bitSize => x.bitSize
  | factor => x.factor
  | offset => x.offset
  | minimum => x.minimum
  | maximum => x.maximum

/-- The attribute's value in a database signal: a whole number for bits, otherwise any number, null
where it is not finite. -/
def said? (f : LayoutField) (x : DatabaseSignal) : Option Value :=
  match f with
  | bitPosition | bitSize => (wordOf? (f.text? x)).map fun n => .int n.toNat
  | factor | offset | minimum | maximum => (numberOf? (f.text? x)).map Value.ofFinite

/-- The field that an attribute is taken from. -/
def ofKey? (key : String) : Option LayoutField := all.find? fun f => f.key == key

end LayoutField

namespace DatabaseSignal

/-- All layout fields are there and hold numbers. -/
def Complete (x : DatabaseSignal) : Prop := ∀ f : LayoutField, ∃ v, f.said? x = some v

/-- What is taken over of a database signal under an attribute, the signal referred to by a key. -/
def said? (x : DatabaseSignal) (key attr : String) : Option Value :=
  if attr = "generic_name" then some (.text key) else (LayoutField.ofKey? attr).bind (·.said? x)

end DatabaseSignal

theorem LayoutField.ofKey?_key (f : LayoutField) : ofKey? f.key = some f := by
  cases f <;> rfl

/-- No other attribute is taken from a field. -/
theorem LayoutField.ofKey?_eq_none {attr : String} (h : ∀ f : LayoutField, attr ≠ f.key) :
    ofKey? attr = none := by
  rw [ofKey?, List.find?_eq_none]
  intro f _ heq
  exact h f (beq_iff_eq.mp heq).symm

/-! ## Descriptions -/

theorem Field.read_eq_ok_iff {α : Type} {f : Field} {id : UInt32} {signal : String}
    {reader : List Char → Option α} {a : α} :
    f.read id signal reader = .ok a ↔
      (f.text.bind fun text => reader (trim text.toList)) = some a := by
  unfold Field.read
  cases f.text with
  | none => simp
  | some text =>
    rw [Option.bind_some]
    dsimp only
    cases reader (trim text.toList) <;> simp

/-- The numbers that are read from a complete signal. -/
structure Layout where
  position : UInt32
  size : UInt32
  factor : Double
  offset : Double
  minimum : Double
  maximum : Double

namespace Layout

/-- The description of a signal that is referred to by a key. -/
def fields (l : Layout) (key : String) : Fields :=
  [("bit_position", .int l.position.toNat), ("bit_size", .int l.size.toNat),
    ("factor", Value.ofFinite l.factor), ("generic_name", .text key),
    ("max_value", Value.ofFinite l.maximum), ("min_value", Value.ofFinite l.minimum),
    ("offset", Value.ofFinite l.offset)]

/-- The attribute that is made of a field. -/
def value (l : Layout) : LayoutField → Value
  | .bitPosition => .int l.position.toNat
  | .bitSize => .int l.size.toNat
  | .factor => Value.ofFinite l.factor
  | .offset => Value.ofFinite l.offset
  | .minimum => Value.ofFinite l.minimum
  | .maximum => Value.ofFinite l.maximum

/-- The numbers are those that the fields of a signal hold. -/
structure IsOf (l : Layout) (x : DatabaseSignal) : Prop where
  position : wordOf? x.bitPosition = some l.position
  size : wordOf? x.bitSize = some l.size
  factor : numberOf? x.factor = some l.factor
  offset : numberOf? x.offset = some l.offset
  minimum : numberOf? x.minimum = some l.minimum
  maximum : numberOf? x.maximum = some l.maximum

theorem IsOf.said? {l : Layout} {x : DatabaseSignal} (h : l.IsOf x) (f : LayoutField) :
    f.said? x = some (l.value f) := by
  cases f with
  | bitPosition => exact Option.map_eq_some_iff.mpr ⟨_, h.position, rfl⟩
  | bitSize => exact Option.map_eq_some_iff.mpr ⟨_, h.size, rfl⟩
  | factor => exact Option.map_eq_some_iff.mpr ⟨_, h.factor, rfl⟩
  | offset => exact Option.map_eq_some_iff.mpr ⟨_, h.offset, rfl⟩
  | minimum => exact Option.map_eq_some_iff.mpr ⟨_, h.minimum, rfl⟩
  | maximum => exact Option.map_eq_some_iff.mpr ⟨_, h.maximum, rfl⟩

/-- A signal has a layout exactly if it is complete. -/
theorem exists_isOf_iff {x : DatabaseSignal} : (∃ l : Layout, l.IsOf x) ↔ x.Complete := by
  constructor
  · rintro ⟨l, hl⟩ f
    exact ⟨l.value f, hl.said? f⟩
  · intro h
    obtain ⟨position, hposition, -⟩ := Option.map_eq_some_iff.mp (h .bitPosition).choose_spec
    obtain ⟨size, hsize, -⟩ := Option.map_eq_some_iff.mp (h .bitSize).choose_spec
    obtain ⟨factor, hfactor, -⟩ := Option.map_eq_some_iff.mp (h .factor).choose_spec
    obtain ⟨offset, hoffset, -⟩ := Option.map_eq_some_iff.mp (h .offset).choose_spec
    obtain ⟨minimum, hminimum, -⟩ := Option.map_eq_some_iff.mp (h .minimum).choose_spec
    obtain ⟨maximum, hmaximum, -⟩ := Option.map_eq_some_iff.mp (h .maximum).choose_spec
    exact ⟨⟨position, size, factor, offset, minimum, maximum⟩,
      hposition, hsize, hfactor, hoffset, hminimum, hmaximum⟩

/-- Whatever is taken over replaces nothing in depth: it is no object and no list. -/
theorem isPlain_of_mem_fields {l : Layout} {key : String} {entry : String × Value}
    (h : entry ∈ l.fields key) : entry.2.IsPlain := by
  have hfinite : ∀ x : Double, (Value.ofFinite x).IsPlain := by
    intro x
    unfold Value.ofFinite
    split <;> exact trivial
  simp only [fields, List.mem_cons, List.not_mem_nil, or_false] at h
  rcases h with rfl | rfl | rfl | rfl | rfl | rfl | rfl
  · exact trivial
  · exact trivial
  · exact hfinite _
  · exact trivial
  · exact hfinite _
  · exact hfinite _
  · exact hfinite _

theorem fields_ordered (l : Layout) (key : String) : (Value.object (l.fields key)).Ordered := by
  refine Value.ordered_object_iff.mpr ⟨Keyed.ordered_iff_keys.mpr ?_, fun entry hentry => ?_⟩
  · show List.Pairwise (· < ·) ["bit_position", "bit_size", "factor", "generic_name", "max_value",
      "min_value", "offset"]
    decide
  · exact (isPlain_of_mem_fields hentry).ordered

theorem get?_fields {l : Layout} {x : DatabaseSignal} (h : l.IsOf x) (key attr : String) :
    Keyed.get? (l.fields key) attr = x.said? key attr := by
  by_cases hname : attr = "generic_name"
  · subst hname
    rfl
  · rw [DatabaseSignal.said?, if_neg hname]
    by_cases hfield : ∃ f : LayoutField, attr = f.key
    · obtain ⟨f, rfl⟩ := hfield
      rw [LayoutField.ofKey?_key, Option.bind_some, h.said? f]
      cases f <;> rfl
    · have hfield : ∀ f : LayoutField, attr ≠ f.key := fun f heq => hfield ⟨f, heq⟩
      rw [LayoutField.ofKey?_eq_none hfield, Option.bind_none, Keyed.get?_eq_none_iff]
      intro hmem
      have hmem : attr ∈ ["bit_position", "bit_size", "factor", "generic_name", "max_value",
        "min_value", "offset"] := hmem
      simp only [List.mem_cons, List.not_mem_nil, or_false] at hmem
      rcases hmem with heq | heq | heq | heq | heq | heq | heq
      · exact hfield .bitPosition heq
      · exact hfield .bitSize heq
      · exact hfield .factor heq
      · exact hname heq
      · exact hfield .maximum heq
      · exact hfield .minimum heq
      · exact hfield .offset heq

end Layout

namespace DatabaseSignal

variable {x : DatabaseSignal} {id : UInt32} {key : String}

theorem describe_eq_ok_iff {v : Value} :
    x.describe id key = .ok v ↔ ∃ l : Layout, l.IsOf x ∧ v = .object (l.fields key) := by
  constructor
  · intro h
    obtain ⟨position, hposition, h⟩ := Except.bind_eq_ok_iff.mp h
    obtain ⟨size, hsize, h⟩ := Except.bind_eq_ok_iff.mp h
    obtain ⟨factor, hfactor, h⟩ := Except.bind_eq_ok_iff.mp h
    obtain ⟨offset, hoffset, h⟩ := Except.bind_eq_ok_iff.mp h
    obtain ⟨minimum, hminimum, h⟩ := Except.bind_eq_ok_iff.mp h
    obtain ⟨maximum, hmaximum, h⟩ := Except.bind_eq_ok_iff.mp h
    rw [Field.read_eq_ok_iff] at hposition hsize hfactor hoffset hminimum hmaximum
    exact ⟨⟨position, size, factor, offset, minimum, maximum⟩,
      ⟨hposition, hsize, hfactor, hoffset, hminimum, hmaximum⟩, (Except.ok.inj h).symm⟩
  · rintro ⟨l, hl, rfl⟩
    refine Except.bind_eq_ok_iff.mpr ⟨_, Field.read_eq_ok_iff.mpr hl.position, ?_⟩
    refine Except.bind_eq_ok_iff.mpr ⟨_, Field.read_eq_ok_iff.mpr hl.size, ?_⟩
    refine Except.bind_eq_ok_iff.mpr ⟨_, Field.read_eq_ok_iff.mpr hl.factor, ?_⟩
    refine Except.bind_eq_ok_iff.mpr ⟨_, Field.read_eq_ok_iff.mpr hl.offset, ?_⟩
    refine Except.bind_eq_ok_iff.mpr ⟨_, Field.read_eq_ok_iff.mpr hl.minimum, ?_⟩
    refine Except.bind_eq_ok_iff.mpr ⟨_, Field.read_eq_ok_iff.mpr hl.maximum, ?_⟩
    rfl

/-- A signal can be described exactly if it is complete. -/
theorem exists_describe_iff : (∃ v, x.describe id key = .ok v) ↔ x.Complete := by
  rw [← Layout.exists_isOf_iff]
  constructor
  · rintro ⟨v, hv⟩
    obtain ⟨l, hl, -⟩ := describe_eq_ok_iff.mp hv
    exact ⟨l, hl⟩
  · rintro ⟨l, hl⟩
    exact ⟨_, describe_eq_ok_iff.mpr ⟨l, hl, rfl⟩⟩

/-- A description has the attributes that are taken over, and no others. -/
theorem fields_of_describe {v : Value} (h : x.describe id key = .ok v) :
    ∃ m : OrderedObject, v = m.toValue ∧ (∀ entry ∈ m.fields, entry.2.IsPlain) ∧
      ∀ attr, m.fields.get? attr = x.said? key attr := by
  obtain ⟨l, hl, rfl⟩ := describe_eq_ok_iff.mp h
  exact ⟨⟨l.fields key, l.fields_ordered key⟩, rfl, fun _ => Layout.isPlain_of_mem_fields,
    Layout.get?_fields hl key⟩

end DatabaseSignal

end CanTables.Network
