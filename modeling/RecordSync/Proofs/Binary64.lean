import Mathlib.Order.Monotone.Basic
import Mathlib.Tactic.Linarith
import Mathlib.Tactic.Ring
import RecordSync.Binary64

/-!
# The numbers behind binary64 patterns

A finite pattern stands for an integral number of units, the unit being the smallest
number above zero.  Without its sign a pattern is a natural number, and counting the
patterns up counts the numbers up: a carry out of the fraction into the exponent is the
step to the next power of two.

**Results.**
* `ofInt_exact`: an integer below 2^53 in size has the pattern of just its number.
* `ofInt_nearest`: an integer of 64 bits has the nearest pattern, the even one on a tie.
* `units_ofBinary32`: a finite binary32 pattern, subnormal or not, widens without loss;
  `isNaN_ofBinary32_iff`: a NaN, and nothing else, widens to a NaN.
* `numEq_iff`: two patterns are equal as numbers when neither is a NaN and their numbers
  are equal.
-/

namespace RecordSync
namespace Binary64

/-- The number of a pattern without its sign bit, in units of the smallest number above
zero, for a fraction of some width. -/
def magnitude (width m : Nat) : Nat :=
  if m / 2 ^ width = 0 then m
  else (2 ^ width + m % 2 ^ width) * 2 ^ (m / 2 ^ width - 1)

/-- The number of a binary64 pattern, in units of the smallest number above zero. -/
def units (bits : UInt64) : Int :=
  if bits.toNat < 2 ^ 63 then magnitude 52 bits.toNat
  else -(magnitude 52 (bits.toNat - 2 ^ 63) : Int)

/-- The number of a binary32 pattern, in units of the smallest binary32 number above
zero. -/
def units32 (bits : UInt32) : Int :=
  if bits.toNat < 2 ^ 31 then magnitude 23 bits.toNat
  else -(magnitude 23 (bits.toNat - 2 ^ 31) : Int)

/-- The unit is two to the power of minus this. -/
def unitPower : Nat := 1074

/-- The number one, in units. -/
def one : Nat := 2 ^ unitPower

/-- The smallest binary32 number above zero, in units. -/
def unit32 : Nat := 2 ^ 925

section Magnitudes

variable {width m m' : Nat}

@[simp] theorem magnitude_zero : magnitude width 0 = 0 := by
  simp [magnitude]

theorem magnitude_add {e q : Nat} (low : 2 ^ width ≤ q) (high : q ≤ 2 ^ (width + 1)) :
    magnitude width (e * 2 ^ width + q) = q * 2 ^ e := by
  have pos : 0 < 2 ^ width := Nat.two_pow_pos width
  rw [Nat.pow_succ] at high
  rcases Nat.lt_or_ge q (2 ^ width * 2) with inside | full
  · obtain ⟨f, rfl⟩ := Nat.exists_eq_add_of_le low
    have split : e * 2 ^ width + (2 ^ width + f) = f + 2 ^ width * (e + 1) := by ring
    have small : f < 2 ^ width := by omega
    rw [magnitude, split, Nat.add_mul_div_left _ _ pos, Nat.add_mul_mod_self_left,
      Nat.div_eq_of_lt small, Nat.mod_eq_of_lt small]
    simp
  -- A full fraction is the first of the next exponent.
  · obtain rfl : q = 2 ^ width * 2 := by omega
    have split : e * 2 ^ width + 2 ^ width * 2 = 0 + 2 ^ width * (e + 2) := by ring
    rw [magnitude, split, Nat.add_mul_div_left _ _ pos, Nat.add_mul_mod_self_left]
    simp [Nat.pow_succ, Nat.mul_assoc, Nat.mul_comm 2]

/-- The step from one number to the next. -/
theorem magnitude_succ (m : Nat) :
    magnitude width (m + 1) = magnitude width m + 2 ^ (m / 2 ^ width - 1) := by
  have pos : 0 < 2 ^ width := Nat.two_pow_pos width
  have below := Nat.mod_lt m pos
  have parts := Nat.div_add_mod m (2 ^ width)
  cases exponent : m / 2 ^ width with
  | zero =>
      rw [exponent, Nat.mul_zero, Nat.zero_add] at parts
      rcases Nat.lt_or_ge (m + 1) (2 ^ width) with inside | full
      · simp [magnitude, exponent, Nat.div_eq_of_lt inside]
      · have next : m + 1 = 0 * 2 ^ width + 2 ^ width := by omega
        rw [next, magnitude_add le_rfl (Nat.pow_le_pow_right (by decide) (by omega))]
        simp [magnitude, exponent]
        omega
  | succ e =>
      have here : m = e * 2 ^ width + (2 ^ width + m % 2 ^ width) := by
        rw [exponent] at parts
        linarith
      have next : m + 1 = e * 2 ^ width + (2 ^ width + m % 2 ^ width + 1) := by omega
      have twice : 2 ^ (width + 1) = 2 ^ width + 2 ^ width := by ring
      conv_lhs => rw [next]
      conv_rhs => rw [here]
      rw [magnitude_add (by omega) (by omega), magnitude_add (by omega) (by omega)]
      simp [Nat.add_mul]

theorem strictMono_magnitude : StrictMono (magnitude width) :=
  strictMono_nat_of_lt_succ fun m => by
    rw [magnitude_succ]
    exact Nat.lt_add_of_pos_right (Nat.two_pow_pos _)

theorem magnitude_inj : magnitude width m = magnitude width m' ↔ m = m' :=
  strictMono_magnitude.injective.eq_iff

theorem magnitude_eq_zero_iff : magnitude width m = 0 ↔ m = 0 :=
  calc magnitude width m = 0
    _ ↔ magnitude width m = magnitude width 0 := by rw [magnitude_zero]
    _ ↔ m = 0 := magnitude_inj

end Magnitudes

section Rounding

variable {mag q step x : Nat}

/-- A number is at least the smallest full fraction of steps, and this fraction of steps
is at most half a step away from it; if it is just half a step away, the fraction is
even. -/
structure Rounds (q step x : Nat) : Prop where
  low : 2 ^ 52 ≤ q
  high : q ≤ 2 ^ 53
  least : 2 ^ 52 * step ≤ x
  near : 2 * ((q * step : Nat) - x : Int).natAbs ≤ step
  even : 2 * ((q * step : Nat) - x : Int).natAbs = step → q % 2 = 0

namespace Rounds

theorem of_eq (low : 2 ^ 52 ≤ q) (high : q ≤ 2 ^ 53) (pos : 0 < step)
    (eq : q * step = x) : Rounds q step x where
  low := low
  high := high
  least := eq ▸ Nat.mul_le_mul_right step low
  near := by omega
  even := by omega

theorem scale (r : Rounds q step x) {k : Nat} (pos : 0 < k) :
    Rounds q (step * k) (x * k) := by
  have distance : ((q * (step * k) : Nat) - (x * k : Nat) : Int).natAbs =
      ((q * step : Nat) - x : Int).natAbs * k := by
    rw [← Nat.mul_assoc, Nat.cast_mul _ k, Nat.cast_mul _ k, ← Int.sub_mul, Int.natAbs_mul,
      Int.natAbs_natCast]
  refine ⟨r.low, r.high, ?_, ?_, ?_⟩
  · rw [← Nat.mul_assoc]
    exact Nat.mul_le_mul_right k r.least
  · rw [distance, ← Nat.mul_assoc]
    exact Nat.mul_le_mul_right k r.near
  · rw [distance, ← Nat.mul_assoc]
    exact fun half => r.even (Nat.eq_of_mul_eq_mul_right pos half)

/-- No number is nearer; one that is as near is the same, or this one is half a step
away. -/
theorem nearest {e : Nat} (r : Rounds q (2 ^ e) x) (m : Nat) :
    ((q * 2 ^ e : Nat) - x : Int).natAbs ≤ (magnitude 52 m - x : Int).natAbs ∧
      (((q * 2 ^ e : Nat) - x : Int).natAbs = (magnitude 52 m - x : Int).natAbs →
        m = e * 2 ^ 52 + q ∨ 2 * ((q * 2 ^ e : Nat) - x : Int).natAbs = 2 ^ e) := by
  obtain ⟨low, high, least, near, -⟩ := r
  have here : magnitude 52 (e * 2 ^ 52 + q) = q * 2 ^ e := magnitude_add low high
  rcases lt_trichotomy m (e * 2 ^ 52 + q) with less | rfl | more
  · have lower : magnitude 52 m <
        magnitude 52 (e * 2 ^ 52 + q) := strictMono_magnitude less
    rcases low.eq_or_lt with rfl | beyond
    · rw [here] at lower
      omega
    -- The number below is a whole step away.
    · obtain ⟨p, rfl⟩ := Nat.exists_eq_add_of_lt beyond
      have last : magnitude 52 (e * 2 ^ 52 + (2 ^ 52 + p)) = (2 ^ 52 + p) * 2 ^ e :=
        magnitude_add (by omega) (by omega)
      have upper : magnitude 52 m ≤ magnitude 52 (e * 2 ^ 52 + (2 ^ 52 + p)) :=
        strictMono_magnitude.monotone (by omega)
      have total : (2 ^ 52 + p + 1) * 2 ^ e = (2 ^ 52 + p) * 2 ^ e + 2 ^ e :=
        Nat.succ_mul _ _
      rw [last] at upper
      rw [total] at near ⊢
      generalize (2 ^ 52 + p) * 2 ^ e = a at near upper ⊢
      omega
  · rw [here]
    exact ⟨le_rfl, fun _ => .inl rfl⟩
  · have upper : magnitude 52 (e * 2 ^ 52 + q + 1) ≤ magnitude 52 m :=
      strictMono_magnitude.monotone more
    have exponent : e ≤ (e * 2 ^ 52 + q) / 2 ^ 52 - 1 := by omega
    have step : 2 ^ e ≤ 2 ^ ((e * 2 ^ 52 + q) / 2 ^ 52 - 1) :=
      Nat.pow_le_pow_right (by decide) exponent
    rw [magnitude_succ, here] at upper
    omega

end Rounds

theorem ofScaledNat_of_small (pos : mag ≠ 0) (small : mag.log2 ≤ 52) (scale : Int) :
    ofScaledNat mag scale =
      (mag.log2 + scale + 1022).toNat * 2 ^ 52 + mag * 2 ^ (52 - mag.log2) := by
  simp only [ofScaledNat, if_neg pos, if_pos small, Nat.shiftLeft_eq]

theorem fraction_of_small (pos : mag ≠ 0) (small : mag.log2 ≤ 52) :
    2 ^ 52 ≤ mag * 2 ^ (52 - mag.log2) ∧ mag * 2 ^ (52 - mag.log2) ≤ 2 ^ 53 := by
  constructor
  · calc 2 ^ 52 = 2 ^ mag.log2 * 2 ^ (52 - mag.log2) := by
          rw [← Nat.pow_add, Nat.add_sub_cancel' small]
      _ ≤ mag * 2 ^ (52 - mag.log2) := Nat.mul_le_mul_right _ (Nat.log2_self_le pos)
  · have exponents : mag.log2 + 1 + (52 - mag.log2) = 53 := by omega
    calc mag * 2 ^ (52 - mag.log2)
        ≤ 2 ^ (mag.log2 + 1) * 2 ^ (52 - mag.log2) :=
          Nat.mul_le_mul_right _ Nat.lt_log2_self.le
      _ = 2 ^ 53 := by rw [← Nat.pow_add, exponents]

/-- A number that fits into the fraction is exact. -/
theorem magnitude_of_small (pos : mag ≠ 0) (small : mag.log2 ≤ 52) {scale : Int}
    (normal : 0 ≤ mag.log2 + scale + 1022) {k : Nat}
    (power : (k : Int) = scale + unitPower) :
    magnitude 52 (ofScaledNat mag scale) = mag * 2 ^ k := by
  obtain ⟨low, high⟩ := fraction_of_small pos small
  have exponents : 52 - mag.log2 + (mag.log2 + scale + 1022).toNat = k := by
    rw [unitPower] at power
    omega
  rw [ofScaledNat_of_small pos small, magnitude_add low high, Nat.mul_assoc, ← Nat.pow_add,
    exponents]

/-- A number with more bits than the fraction is rounded to the bits that fit. -/
theorem ofScaledNat_of_large (large : 52 < mag.log2) (scale : Int) :
    ∃ q, ofScaledNat mag scale = (mag.log2 + scale + 1022).toNat * 2 ^ 52 + q ∧
      Rounds q (2 ^ (mag.log2 - 52)) mag := by
  have pos : mag ≠ 0 := by
    rintro rfl
    exact absurd large (by decide)
  obtain ⟨drop, exponent⟩ := Nat.exists_eq_add_of_lt large
  have small : ¬ mag.log2 ≤ 52 := by omega
  have gap : mag.log2 - 52 = drop + 1 := by omega
  have low := Nat.log2_self_le pos
  have high := Nat.lt_log2_self (n := mag)
  rw [exponent, show 52 + drop + 1 = 52 + (drop + 1) by omega, Nat.pow_add] at low
  rw [exponent, show 52 + drop + 1 + 1 = 53 + (drop + 1) by omega, Nat.pow_add] at high
  simp only [ofScaledNat, if_neg pos, if_neg small, gap, Nat.shiftLeft_eq, Nat.one_mul,
    Nat.shiftRight_eq_div_pow, Nat.add_sub_cancel]
  have step : 2 ^ (drop + 1) = 2 * 2 ^ drop := Nat.pow_succ'
  have parts := Nat.div_add_mod' mag (2 ^ (drop + 1))
  have rest := Nat.mod_lt mag (Nat.two_pow_pos (drop + 1))
  have least : 2 ^ 52 ≤ mag / 2 ^ (drop + 1) :=
    (Nat.le_div_iff_mul_le (Nat.two_pow_pos _)).mpr low
  have most : mag / 2 ^ (drop + 1) < 2 ^ 53 :=
    (Nat.div_lt_iff_lt_mul (Nat.two_pow_pos _)).mpr high
  have total := Nat.succ_mul (mag / 2 ^ (drop + 1)) (2 ^ (drop + 1))
  refine ⟨_, rfl, ?_⟩
  generalize mag / 2 ^ (drop + 1) = quotient at parts least most total ⊢
  generalize mag % 2 ^ (drop + 1) = remainder at parts rest ⊢
  split
  next up => constructor <;> first | omega | (rw [total]; omega)
  next down => constructor <;> omega

/-- Where the pattern of a natural number stands among the patterns, and how near it
is. -/
theorem ofScaledNat_rounds (pos : mag ≠ 0) :
    ∃ q, ofScaledNat mag 0 = (mag.log2 + 1022) * 2 ^ 52 + q ∧
      Rounds q (2 ^ (mag.log2 + 1022)) (mag * one) := by
  have exponent : (mag.log2 + 0 + 1022 : Int).toNat = mag.log2 + 1022 := by omega
  rcases Nat.lt_or_ge 52 mag.log2 with large | small
  · obtain ⟨q, eq, rounds⟩ := ofScaledNat_of_large large 0
    have scaled : 2 ^ (mag.log2 + 1022) = 2 ^ (mag.log2 - 52) * one := by
      have exponents : mag.log2 + 1022 = mag.log2 - 52 + unitPower := by
        rw [unitPower]
        omega
      rw [one, ← Nat.pow_add, exponents]
    rw [exponent] at eq
    rw [scaled]
    exact ⟨q, eq, rounds.scale (Nat.two_pow_pos _)⟩
  · have eq := ofScaledNat_of_small pos small 0
    obtain ⟨low, high⟩ := fraction_of_small pos small
    have exact : magnitude 52 (ofScaledNat mag 0) = mag * one :=
      magnitude_of_small pos small (by omega) (Int.zero_add _).symm
    rw [exponent] at eq
    rw [eq, magnitude_add low high] at exact
    exact ⟨_, eq, .of_eq low high (Nat.two_pow_pos _) exact⟩

/-- A natural number has the nearest pattern; if another one is as near, it has the even
one. -/
theorem ofScaledNat_nearest (mag m : Nat) :
    (magnitude 52 (ofScaledNat mag 0) - (mag * one : Nat) : Int).natAbs ≤
        (magnitude 52 m - (mag * one : Nat) : Int).natAbs ∧
      ((magnitude 52 (ofScaledNat mag 0) - (mag * one : Nat) : Int).natAbs =
          (magnitude 52 m - (mag * one : Nat) : Int).natAbs →
        m = ofScaledNat mag 0 ∨ ofScaledNat mag 0 % 2 = 0) := by
  rcases eq_or_ne mag 0 with rfl | pos
  · simp [ofScaledNat]
  · obtain ⟨q, eq, rounds⟩ := ofScaledNat_rounds pos
    obtain ⟨nearest, unique⟩ := rounds.nearest m
    rw [eq, magnitude_add rounds.low rounds.high]
    refine ⟨nearest, fun same => (unique same).imp id fun half => ?_⟩
    have even := rounds.even half
    omega

/-- A natural number below 2^53 is exact. -/
theorem ofScaledNat_exact (small : mag < 2 ^ 53) :
    magnitude 52 (ofScaledNat mag 0) = mag * one := by
  rcases eq_or_ne mag 0 with rfl | pos
  · simp [ofScaledNat]
  · have top : mag.log2 < 53 := (Nat.log2_lt pos).mpr small
    exact magnitude_of_small pos (Nat.le_of_lt_succ top) (by omega) (Int.zero_add _).symm

end Rounding

section Signs

variable {m : Nat}

/-- A pattern without its sign bit, and the sign. -/
def signed (negative : Prop) [Decidable negative] (m : Nat) : UInt64 :=
  if negative then UInt64.ofNat m ||| signBit else UInt64.ofNat m

theorem toNat_signed (small : m < 2 ^ 63) (negative : Prop) [Decidable negative] :
    (signed negative m).toNat = m + if negative then 2 ^ 63 else 0 := by
  have same : (UInt64.ofNat m).toNat = m :=
    UInt64.toNat_ofNat_of_lt' (small.trans (by decide))
  have sign : signBit.toNat = 2 ^ 63 := rfl
  rw [signed]
  split
  · rw [UInt64.toNat_or, same, sign, Nat.or_comm, Nat.add_comm]
    simpa using (Nat.two_pow_add_eq_or_of_lt small 1).symm
  · rw [same, Nat.add_zero]

theorem units_signed (small : m < 2 ^ 63) (negative : Prop) [Decidable negative] :
    units (signed negative m) =
      if negative then -(magnitude 52 m : Int) else magnitude 52 m := by
  rw [units, toNat_signed small]
  split
  · rw [if_neg (by omega), Nat.add_sub_cancel]
  · rw [Nat.add_zero, if_pos small]

/-- Each pattern is a magnitude with a sign. -/
theorem units_cases (b : UInt64) :
    ∃ m, m < 2 ^ 63 ∧ (b.toNat = m ∧ units b = magnitude 52 m ∨
      b.toNat = 2 ^ 63 + m ∧ units b = -(magnitude 52 m : Int)) := by
  have bound := b.toNat_lt
  rw [units]
  split
  next positive => exact ⟨_, positive, .inl ⟨rfl, rfl⟩⟩
  next negative => exact ⟨b.toNat - 2 ^ 63, by omega, .inr ⟨by omega, rfl⟩⟩

end Signs

section Integers

variable {n : Int}

theorem ofScaledNat_lt {mag : Nat} (h : mag < 2 ^ 64) : ofScaledNat mag 0 < 2 ^ 63 := by
  rcases eq_or_ne mag 0 with rfl | pos
  · decide
  · obtain ⟨q, eq, rounds⟩ := ofScaledNat_rounds pos
    have high := rounds.high
    have top : mag.log2 < 64 := (Nat.log2_lt pos).mpr h
    omega

/-- The pattern of an integer is that of its size, with its sign. -/
theorem ofInt_eq (n : Int) : ofInt n = signed (n < 0) (ofScaledNat n.natAbs 0) := rfl

theorem mul_one_eq_ite (n : Int) :
    n * one = if n < 0 then -((n.natAbs * one : Nat) : Int)
      else (n.natAbs * one : Nat) := by
  rw [Nat.cast_mul]
  split
  next negative => rw [← Int.neg_mul, Int.ofNat_natAbs_of_nonpos negative.le, Int.neg_neg]
  next nonneg => rw [Int.natAbs_of_nonneg (Int.not_lt.mp nonneg)]

/-- An integer below 2^53 in size is exact. -/
theorem ofInt_exact (small : n.natAbs < 2 ^ 53) : units (ofInt n) = n * one := by
  have fits := ofScaledNat_lt (small.trans (by decide))
  rw [ofInt_eq, units_signed fits, ofScaledNat_exact small, mul_one_eq_ite]

example : ofInt (-3) = 0xc008000000000000 := by decide

/-- An integer of 64 bits has the nearest pattern; if another one is as near, it has the
even one. -/
theorem ofInt_nearest (h : n.natAbs < 2 ^ 64) (b : UInt64) :
    (units (ofInt n) - n * one).natAbs ≤ (units b - n * one).natAbs ∧
      ((units (ofInt n) - n * one).natAbs = (units b - n * one).natAbs →
        b = ofInt n ∨ (ofInt n).toNat % 2 = 0) := by
  have fits := ofScaledNat_lt h
  obtain ⟨m, -, value⟩ := units_cases b
  obtain ⟨near, even⟩ := ofScaledNat_nearest n.natAbs m
  -- A pattern of the other sign is no nearer than zero.
  obtain ⟨near₀, even₀⟩ := ofScaledNat_nearest n.natAbs 0
  rw [magnitude_zero] at near₀ even₀
  rw [ofInt_eq, units_signed fits, mul_one_eq_ite, ← UInt64.toNat_inj, toNat_signed fits]
  clear fits
  generalize n.natAbs * one = x at *
  generalize ofScaledNat n.natAbs 0 = best at *
  generalize magnitude 52 best = nearest at *
  generalize magnitude 52 m = other at *
  split <;> rcases value with ⟨place, value⟩ | ⟨place, value⟩ <;> rw [value]
  · clear even near
    omega
  · clear even₀ near₀
    omega
  · clear even₀ near₀
    omega
  · clear even near
    omega

example : ofInt 9007199254740993 = ofInt 9007199254740992 := by decide

end Integers

section Widening

variable {m : Nat} {b : UInt32}

/-- What a binary32 pattern without its sign bit widens to. -/
def widened (m : Nat) : Nat :=
  if m / 2 ^ 23 = 255 then
    if m % 2 ^ 23 = 0 then 2047 * 2 ^ 52 else 2047 * 2 ^ 52 + 2 ^ 51 + m % 2 ^ 22 * 2 ^ 29
  else if m / 2 ^ 23 = 0 then ofScaledNat (m % 2 ^ 23) (-149)
  else (m / 2 ^ 23 + 896) * 2 ^ 52 + m % 2 ^ 23 * 2 ^ 29

/-- A pattern widens without its sign, which is put back at the top. -/
theorem ofBinary32_eq (b : UInt32) :
    ofBinary32 b = signed (2 ^ 31 ≤ b.toNat) (widened (b.toNat % 2 ^ 31)) := by
  have bound := b.toNat_lt
  have exponent : b.toNat / 2 ^ 23 % 256 = b.toNat % 2 ^ 31 / 2 ^ 23 := by omega
  have fraction : b.toNat % 2 ^ 23 = b.toNat % 2 ^ 31 % 2 ^ 23 := by omega
  have payload : b.toNat % 2 ^ 23 % 2 ^ 22 = b.toNat % 2 ^ 31 % 2 ^ 22 := by omega
  simp only [ofBinary32, signed, widened, Nat.shiftRight_eq_div_pow, Nat.shiftLeft_eq,
    Nat.one_mul, payload]
  rw [exponent, fraction]

/-- A finite number keeps its value, be it normal or not. -/
theorem magnitude_widened (finite : m / 2 ^ 23 < 255) :
    magnitude 52 (widened m) = magnitude 23 m * unit32 := by
  have below := Nat.mod_lt m (Nat.two_pow_pos 23)
  have parts := Nat.div_add_mod m (2 ^ 23)
  rw [widened, if_neg finite.ne]
  split
  next subnormal =>
    have small : m < 2 ^ 23 := by omega
    rw [Nat.mod_eq_of_lt small]
    rcases eq_or_ne m 0 with rfl | pos
    · simp [ofScaledNat]
    · have top : m.log2 < 23 := (Nat.log2_lt pos).mpr small
      have power : ((925 : Nat) : Int) = -149 + unitPower := by decide
      rw [magnitude_of_small pos (by omega) (by omega) power, magnitude,
        if_pos subnormal, unit32]
  next normal =>
    obtain ⟨e, exponent⟩ := Nat.exists_eq_succ_of_ne_zero normal
    have split : (m / 2 ^ 23 + 896) * 2 ^ 52 + m % 2 ^ 23 * 2 ^ 29 =
        (e + 896) * 2 ^ 52 + (2 ^ 23 + m % 2 ^ 23) * 2 ^ 29 := by omega
    have power : 2 ^ (e + 896) * 2 ^ 29 = 2 ^ e * unit32 := by
      rw [unit32, ← Nat.pow_add, ← Nat.pow_add]
    rw [split, magnitude_add (by omega) (by omega), magnitude, if_neg normal, exponent,
      Nat.succ_sub_one, Nat.mul_assoc, Nat.mul_assoc, Nat.mul_comm (2 ^ 29), power]

/-- A subnormal number is far from being infinite. -/
theorem subnormal_lt (small : m < 2 ^ 23) : ofScaledNat m (-149) < 2047 * 2 ^ 52 := by
  rcases eq_or_ne m 0 with rfl | pos
  · decide
  · have top : m.log2 < 23 := (Nat.log2_lt pos).mpr small
    have high := (fraction_of_small pos (by omega)).2
    rw [ofScaledNat_of_small pos (by omega)]
    omega

/-- What a pattern widens to leaves room for the sign, and is a NaN just if it was one. -/
theorem widened_bounds (fits : m < 2 ^ 31) :
    widened m < 2 ^ 63 ∧
      (2047 * 2 ^ 52 < widened m ↔ m / 2 ^ 23 = 255 ∧ m % 2 ^ 23 ≠ 0) := by
  rw [widened]
  split
  next infinite =>
    split <;> omega
  next finite =>
    split
    next subnormal =>
      have low := subnormal_lt (Nat.mod_lt m (Nat.two_pow_pos 23))
      omega
    next normal => omega

/-- Widening a finite pattern, subnormal or not, keeps its number. -/
theorem units_ofBinary32 (finite : b.toNat / 2 ^ 23 % 256 ≠ 255) :
    units (ofBinary32 b) = units32 b * unit32 := by
  have bound := b.toNat_lt
  have fits := (widened_bounds (m := b.toNat % 2 ^ 31) (by omega)).1
  rw [ofBinary32_eq, units_signed fits, magnitude_widened (by omega), units32]
  rcases Nat.lt_or_ge b.toNat (2 ^ 31) with positive | negative
  · rw [if_neg positive.not_ge, if_pos positive, Nat.mod_eq_of_lt positive, Nat.cast_mul]
  · have rest : b.toNat % 2 ^ 31 = b.toNat - 2 ^ 31 := by omega
    rw [if_pos negative, if_neg negative.not_gt, rest, Nat.cast_mul, Int.neg_mul]

example : ofBinary32 0x00000001 = 0x36a0000000000000 := by decide

/-- A pattern widens to a NaN iff it is one. -/
theorem isNaN_ofBinary32_iff :
    isNaN (ofBinary32 b) = true ↔
      b.toNat / 2 ^ 23 % 256 = 255 ∧ b.toNat % 2 ^ 23 ≠ 0 := by
  have bound := b.toNat_lt
  obtain ⟨fits, nan⟩ := widened_bounds (m := b.toNat % 2 ^ 31) (by omega)
  have exponent : b.toNat % 2 ^ 31 / 2 ^ 23 = b.toNat / 2 ^ 23 % 256 := by omega
  have fraction : b.toNat % 2 ^ 31 % 2 ^ 23 = b.toNat % 2 ^ 23 := by omega
  have same : (ofBinary32 b).toNat % 2 ^ 63 = widened (b.toNat % 2 ^ 31) := by
    rw [ofBinary32_eq, toNat_signed fits]
    split <;> omega
  rw [isNaN, decide_eq_true_iff, Nat.shiftLeft_eq, Nat.shiftLeft_eq, Nat.one_mul, same,
    nan, exponent, fraction]

end Widening

section Equality

variable {a b : UInt64}

/-- Only zero has two patterns. -/
theorem units_inj : units a = units b ↔ a = b ∨ isZero a = true ∧ isZero b = true := by
  obtain ⟨m, small, value⟩ := units_cases a
  obtain ⟨m', small', value'⟩ := units_cases b
  have same : magnitude 52 m = magnitude 52 m' ↔ m = m' := magnitude_inj
  have zero : magnitude 52 m = 0 ↔ m = 0 := magnitude_eq_zero_iff
  have zero' : magnitude 52 m' = 0 ↔ m' = 0 := magnitude_eq_zero_iff
  rw [← UInt64.toNat_inj, isZero, isZero, decide_eq_true_iff, decide_eq_true_iff,
    Nat.shiftLeft_eq, Nat.one_mul]
  rcases value with ⟨place, value⟩ | ⟨place, value⟩ <;>
    rcases value' with ⟨place', value'⟩ | ⟨place', value'⟩ <;>
      rw [value, value'] <;> omega

/-- Two patterns are equal as numbers when neither is a NaN and they stand for the same
number. -/
theorem numEq_iff : numEq a b = true ↔
    isNaN a = false ∧ isNaN b = false ∧ units a = units b := by
  rw [units_inj]
  simp [numEq, and_assoc]

example :
    numEq 0 signBit = true ∧ numEq 0x7ff8000000000000 0x7ff8000000000000 = false := by
  decide

end Equality

end Binary64
end RecordSync
