/-
# Binary floating point numbers

A `Binary64` is 64 bits: a sign, a biased exponent of 11 bits and a fraction of 52
bits.  Read without the sign, as one number, the bits ascend with the value: they are
`shift * 2^52 + q` for the value `q * 2^shift` in units of the least positive one, with
`q < 2^53`.  `Binary64.ofRatio` rounds to the nearest value, a tie to the even `q`, and
past the greatest one to infinity.
-/


namespace WindowVM

/-- A binary floating point number of 64 bits. -/
structure Binary64 where
  bits : UInt64
  deriving DecidableEq, Repr

/-- The natural number nearest to a quotient, the even one of two. -/
def nearestQuotient (num den : Nat) : Nat :=
  let q := num / den
  let r := num % den
  if 2 * r < den ∨ 2 * r = den ∧ q % 2 = 0 then q else q + 1

/-- A nearest number is at most half a unit away. -/
theorem nearestQuotient_near {num den : Nat} (h : 0 < den) :
    2 * num ≤ (2 * nearestQuotient num den + 1) * den ∧
      2 * nearestQuotient num den * den ≤ 2 * num + den := by
  have hdiv := Nat.div_add_mod num den
  have hmod := Nat.mod_lt num h
  have hcomm : num / den * den = den * (num / den) := Nat.mul_comm ..
  simp only [nearestQuotient]
  split
  · simp only [Nat.add_mul, Nat.mul_assoc, Nat.one_mul]
    omega
  · simp only [Nat.add_mul, Nat.mul_assoc, Nat.one_mul, Nat.mul_add, Nat.mul_one]
    omega

namespace Binary64

/-- The exponent of the least positive value `2^(-1074)`, without its sign. -/
def leastExponent : Nat := 1074

/-- The bits of infinity, and more than those of any finite value. -/
def infinity : Nat := 0x7ff <<< 52

/-- The bits without the sign. -/
def magnitude (x : Binary64) : Nat := x.bits.toNat % (1 <<< 63)

/-- Whether the sign is set. -/
def isNegative (x : Binary64) : Bool := decide (1 <<< 63 ≤ x.bits.toNat)

/-- The number with a given sign and other bits. -/
def ofMagnitude (negative : Bool) (magnitude : Nat) : Binary64 :=
  ⟨UInt64.ofNat ((if negative then 1 <<< 63 else 0) + magnitude)⟩

/-- The bits, without the sign, of the value nearest to a quotient.  The shift leaves
53 binary digits of the quotient, or all of them when there are fewer. -/
def nearest (num den : Nat) : Nat :=
  let scaled := num <<< leastExponent
  let shift := (scaled / den).log2 - 52
  min (shift <<< 52 + nearestQuotient scaled (den <<< shift)) infinity

theorem nearest_le_infinity (num den : Nat) : nearest num den ≤ infinity :=
  Nat.min_le_right ..

/-- The number nearest to a quotient, or to its negative. -/
def ofRatio (negative : Bool) (num den : Nat) : Binary64 :=
  ofMagnitude negative (nearest num den)

/-- The shift of a finite value. -/
def shift (x : Binary64) : Nat := x.magnitude >>> 52 - 1

/-- The binary digits of a finite value before the shift. -/
def significand (x : Binary64) : Nat := x.magnitude - x.shift <<< 52

end Binary64
end WindowVM
