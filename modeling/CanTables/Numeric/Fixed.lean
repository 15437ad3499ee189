import CanTables.Numeric.Floating
import CanTables.Text.Digits

/-!
# CanTables.Numeric.Fixed — numbers written with six decimal places

Every scaling factor, limit and frequency of the emitted tables is written with six places.  The
exact value of the number is rounded once, a half going to the even neighbour; all integer digits
are written; the sign is kept even when nothing else is left of the number.
-/

namespace CanTables.Numeric

/-- Places behind the point. -/
def fixedPlaces : Nat := 6

/-- The magnitude of a finite number in units of the last place written. -/
def fixedUnits (coefficient : Nat) (exponent : Int) : Nat :=
  roundHalfEven (coefficient * Nat.pow 2 exponent.toNat * Nat.pow 10 fixedPlaces)
    (Nat.pow 2 (-exponent).toNat)

/-- A number with six decimal places. -/
def Floating.fixed {f : Format} (x : Floating f) : String :=
  match x.datum with
  | .nan => "NaN"
  | .infinite negative => if negative then "-inf" else "inf"
  | .finite negative coefficient exponent =>
    let units := fixedUnits coefficient exponent
    let sign := if negative then ['-'] else []
    String.ofList
      (sign ++ Text.Digits.write 10 (units / Nat.pow 10 fixedPlaces) ++
        '.' :: Text.Digits.padded fixedPlaces (units % Nat.pow 10 fixedPlaces))

end CanTables.Numeric
