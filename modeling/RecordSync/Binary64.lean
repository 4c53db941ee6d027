/-!
# Binary64 bit patterns

A floating-point field is stored as the 64 bits of its IEEE 754 binary64 value, so that a
payload of a NaN and the sign of a zero survive storage and comparison.  This module
converts integers and binary32 patterns to such bits and says when two patterns are equal
as numbers.

**Layout.**  From the top: one sign bit, eleven exponent bits (bias 1023), fifty-two
fraction bits.

**Results.**
* `ofInt` rounds an integer to the nearest binary64 value, ties to the even fraction.
* `ofBinary32` widens a binary32 pattern without loss.
* `numEq` is equality of numbers: a NaN equals nothing and the two zeros equal each other.
-/

namespace RecordSync
namespace Binary64

/-- The bits of `mag · 2 ^ scale`, rounded to nearest with ties to even, for results in
the normal range: a carry out of the fraction moves into the exponent by itself. -/
def ofScaledNat (mag : Nat) (scale : Int) : Nat :=
  if mag = 0 then 0
  else
    let top := mag.log2
    let fraction :=
      if top ≤ 52 then mag <<< (52 - top)
      else
        let drop := top - 52
        let quotient := mag >>> drop
        let rest := mag % (1 <<< drop)
        let half := 1 <<< (drop - 1)
        if half < rest ∨ (rest = half ∧ quotient % 2 = 1) then quotient + 1 else quotient
    (((top : Int) + scale + 1022).toNat <<< 52) + fraction

/-- The pattern with only the sign bit set. -/
def signBit : UInt64 := 0x8000000000000000

/-- The binary64 value nearest to an integer, ties to even. -/
def ofInt (n : Int) : UInt64 :=
  let magnitude := UInt64.ofNat (ofScaledNat n.natAbs 0)
  if n < 0 then magnitude ||| signBit else magnitude

/-- Widens a binary32 pattern.  Every finite value and infinity is exact; a NaN keeps its
sign and its payload in the upper fraction bits and becomes quiet. -/
def ofBinary32 (bits : UInt32) : UInt64 :=
  let word := bits.toNat
  let exponent := (word >>> 23) % 256
  let fraction := word % (1 <<< 23)
  let magnitude :=
    if exponent = 255 then
      if fraction = 0 then 2047 <<< 52
      else (2047 <<< 52) + (1 <<< 51) + ((fraction % (1 <<< 22)) <<< 29)
    else if exponent = 0 then ofScaledNat fraction (-149)
    else ((exponent + 896) <<< 52) + (fraction <<< 29)
  if 1 <<< 31 ≤ word then UInt64.ofNat magnitude ||| signBit else UInt64.ofNat magnitude

/-- The pattern is one of the NaNs. -/
def isNaN (bits : UInt64) : Bool :=
  decide (2047 <<< 52 < bits.toNat % (1 <<< 63))

/-- The pattern is positive or negative zero. -/
def isZero (bits : UInt64) : Bool :=
  decide (bits.toNat % (1 <<< 63) = 0)

/-- Equality of the numbers that two patterns stand for. -/
def numEq (a b : UInt64) : Bool :=
  !isNaN a && !isNaN b && (a == b || (isZero a && isZero b))

end Binary64
end RecordSync
