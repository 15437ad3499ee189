import CanTables.Numeric.Rounding

/-!
# CanTables.Numeric.Floating — binary floating point with exact rounding

A floating-point number is kept as its bit pattern, so equality of numbers is equality of patterns
and every configuration value survives a round through the library unchanged.  `Floating.datum`
reads a pattern as a sign, an integer coefficient and a power of two; `Floating.ofRatio` goes the
other way and rounds an exact quotient to the nearest representable number, a half going to the
even neighbour.  Sums, products and quotients are computed exactly and rounded once.

Two formats are used: `Format.double` for scaling and limits, `Format.single` for frequencies.
-/

namespace CanTables.Numeric

/-- A binary interchange format: one sign bit, an exponent field and a fraction field. -/
structure Format where
  exponentBits : Nat
  fractionBits : Nat
  deriving DecidableEq, Repr

namespace Format

/-- The 64-bit format. -/
abbrev double : Format := ⟨11, 52⟩

/-- The 32-bit format. -/
abbrev single : Format := ⟨8, 23⟩

/-- Bits of the exponent and fraction fields together. -/
abbrev magnitudeBits (f : Format) : Nat := f.exponentBits + f.fractionBits

/-- The power of two that the last place of the smallest numbers stands for. -/
def leastExponent (f : Format) : Int :=
  2 - (Nat.pow 2 (f.exponentBits - 1) : Nat) - f.fractionBits

/-- The magnitude pattern of infinity: every exponent bit set, no fraction bit set. -/
def infinityPattern (f : Format) : Nat :=
  (Nat.pow 2 f.exponentBits - 1) * Nat.pow 2 f.fractionBits

end Format

/-- A floating-point number of a format: its sign and the pattern of the other fields. -/
structure Floating (f : Format) where
  negative : Bool
  magnitude : BitVec f.magnitudeBits
  deriving DecidableEq, Repr

/-- A 64-bit number. -/
abbrev Double := Floating .double

/-- A 32-bit number. -/
abbrev Single := Floating .single

/-- What a pattern stands for; a finite number is `± coefficient · 2 ^ exponent`. -/
inductive Datum where
  | nan
  | infinite (negative : Bool)
  | finite (negative : Bool) (coefficient : Nat) (exponent : Int)
  deriving DecidableEq, Repr

namespace Floating

variable {f : Format}

/-! ## Patterns -/

/-- The whole pattern, the sign being its highest bit. -/
def toBits (x : Floating f) : Nat :=
  (if x.negative then Nat.pow 2 f.magnitudeBits else 0) + x.magnitude.toNat

/-- The number with a given pattern; bits beyond the format's width are ignored. -/
def ofBits (f : Format) (bits : Nat) : Floating f :=
  ⟨bits / Nat.pow 2 f.magnitudeBits % 2 == 1, BitVec.ofNat _ bits⟩

/-- The sign, coefficient and exponent that a pattern stands for. -/
def datum (x : Floating f) : Datum :=
  let field := x.magnitude.toNat / Nat.pow 2 f.fractionBits
  let fraction := x.magnitude.toNat % Nat.pow 2 f.fractionBits
  if field = Nat.pow 2 f.exponentBits - 1 then
    if fraction = 0 then .infinite x.negative else .nan
  else if field = 0 then .finite x.negative fraction f.leastExponent
  else .finite x.negative (Nat.pow 2 f.fractionBits + fraction) (f.leastExponent + (field - 1))

/-- Infinity of either sign. -/
def infinity (f : Format) (negative : Bool) : Floating f :=
  ⟨negative, BitVec.ofNat _ f.infinityPattern⟩

/-- Zero of either sign. -/
def zero (f : Format) (negative : Bool) : Floating f := ⟨negative, 0⟩

/-- The result of an operation without a value, such as zero times infinity. -/
def invalid (f : Format) : Floating f :=
  ⟨true, BitVec.ofNat _ (f.infinityPattern + Nat.pow 2 (f.fractionBits - 1))⟩

/-- The same not-a-number with its quiet bit set. -/
def quiet (x : Floating f) : Floating f :=
  ⟨x.negative, x.magnitude ||| BitVec.ofNat _ (Nat.pow 2 (f.fractionBits - 1))⟩

/-- Neither infinite nor a not-a-number. -/
def isFinite (x : Floating f) : Bool :=
  match x.datum with
  | .finite .. => true
  | _ => false

/-- A zero of either sign. -/
def isZero (x : Floating f) : Bool := x.magnitude == 0

/-! ## Rounding into a format -/

/-- The integer part of the base-two logarithm of `num / den`, for positive arguments. -/
def ratioLog (num den : Nat) : Int :=
  let guess : Int := num.log2 - den.log2
  if num * Nat.pow 2 (-guess).toNat < den * Nat.pow 2 guess.toNat then guess - 1 else guess

/-- The number nearest to `± num / den`, a half going to the even pattern; what is too large is
infinite.  The exponent field and the fraction are adjacent, so a coefficient that rounds up to
the next power of two carries into the exponent by itself. -/
def ofRatio (f : Format) (negative : Bool) (num den : Nat) : Floating f :=
  if num = 0 then zero f negative
  else
    let lastPlace : Int := max (ratioLog num den - f.fractionBits) f.leastExponent
    let coefficient :=
      roundHalfEven (num * Nat.pow 2 (-lastPlace).toNat) (den * Nat.pow 2 lastPlace.toNat)
    let pattern := (lastPlace - f.leastExponent).toNat * Nat.pow 2 f.fractionBits + coefficient
    ⟨negative, BitVec.ofNat _ (min pattern f.infinityPattern)⟩

/-- The number nearest to `± coefficient · 2 ^ exponent`. -/
def ofScaled (f : Format) (negative : Bool) (coefficient : Nat) (exponent : Int) : Floating f :=
  ofRatio f negative (coefficient * Nat.pow 2 exponent.toNat) (Nat.pow 2 (-exponent).toNat)

/-- The number nearest to an integer. -/
def ofInt (f : Format) (n : Int) : Floating f := ofScaled f (n < 0) n.natAbs 0

/-- The nearest number of another format. -/
def convert (g : Format) (x : Floating f) : Floating g :=
  match x.datum with
  | .nan => invalid g
  | .infinite negative => infinity g negative
  | .finite negative coefficient exponent => ofScaled g negative coefficient exponent

/-! ## Arithmetic -/

/-- The rounded product. -/
def mul (x y : Floating f) : Floating f :=
  match x.datum, y.datum with
  | .nan, _ => x.quiet
  | _, .nan => y.quiet
  | .infinite a, .infinite b => infinity f (a != b)
  | .infinite a, .finite b m _ => if m = 0 then invalid f else infinity f (a != b)
  | .finite a m _, .infinite b => if m = 0 then invalid f else infinity f (a != b)
  | .finite a m e, .finite b n d => ofScaled f (a != b) (m * n) (e + d)

/-- The rounded quotient. -/
def div (x y : Floating f) : Floating f :=
  match x.datum, y.datum with
  | .nan, _ => x.quiet
  | _, .nan => y.quiet
  | .infinite _, .infinite _ => invalid f
  | .infinite a, .finite b .. => infinity f (a != b)
  | .finite a .., .infinite b => zero f (a != b)
  | .finite a m e, .finite b n d =>
    if n = 0 then if m = 0 then invalid f else infinity f (a != b)
    else
      ofRatio f (a != b) (m * Nat.pow 2 (e - d).toNat) (n * Nat.pow 2 (d - e).toNat)

/-- A coefficient with its sign. -/
def signed (negative : Bool) (coefficient : Nat) : Int :=
  if negative then -coefficient else coefficient

/-- The rounded sum; opposite numbers add up to positive zero. -/
def add (x y : Floating f) : Floating f :=
  match x.datum, y.datum with
  | .nan, _ => x.quiet
  | _, .nan => y.quiet
  | .infinite a, .infinite b => if a = b then infinity f a else invalid f
  | .infinite a, .finite .. => infinity f a
  | .finite .., .infinite b => infinity f b
  | .finite a m e, .finite b n d =>
    let least := min e d
    let sum :=
      signed a (m * Nat.pow 2 (e - least).toNat) + signed b (n * Nat.pow 2 (d - least).toNat)
    if sum = 0 then zero f (a && b) else ofScaled f (sum < 0) sum.natAbs least

instance : Mul (Floating f) := ⟨mul⟩
instance : Div (Floating f) := ⟨div⟩
instance : Add (Floating f) := ⟨add⟩

end Floating

end CanTables.Numeric
