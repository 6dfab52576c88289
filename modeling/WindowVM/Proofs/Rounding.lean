/-
# Correct rounding

A `Binary64` is the rounded value of a rational number when no other value is nearer and a
tie went to the even fraction.  Infinity takes part as `2^1024`, the value that would follow
the greatest finite one; so a number is rounded to it from halfway between the two on
(`Rounds.magnitude_eq_infinity_iff`).

This says nothing of how to find the value, but at most one satisfies it (`Rounds.unique`),
and `Binary64.ofRatio` does (`ofRatio_rounds`).  The reason for both is that the values
ascend with the bits, so that only the two around a number compete.
-/

import WindowVM.Number.Binary64
import Mathlib.Algebra.Order.Field.Basic
import Mathlib.Data.Nat.Cast.Order.Field
import Mathlib.Order.Interval.Set.Basic
import Mathlib.Order.Monotone.Basic
import Mathlib.Tactic.FieldSimp
import Mathlib.Tactic.Linarith
import Mathlib.Tactic.Ring

namespace WindowVM

/-! ### The nearest of ascending values -/

/-- Among the indices in `s`, those of no other value are nearer to `r` than `v n`, and `n` is
even if another is as near. -/
structure IsNearest (v : Nat → ℚ) (r : ℚ) (s : Set Nat) (n : Nat) : Prop where
  mem : n ∈ s
  near : ∀ m ∈ s, |r - v n| ≤ |r - v m|
  even : ∀ m ∈ s, m ≠ n → |r - v m| = |r - v n| → n % 2 = 0

namespace IsNearest

variable {v : Nat → ℚ} {r : ℚ} {k m n bound : Nat}

theorem abs_sub_lt_of_le {a b : ℚ} (hab : a < b) (hbr : b ≤ r) : |r - b| < |r - a| := by
  rw [abs_of_nonneg (by linarith), abs_of_nonneg (by linarith)]
  linarith

theorem abs_sub_lt_of_ge {a b : ℚ} (hab : a < b) (hra : r ≤ a) : |r - a| < |r - b| := by
  rw [abs_of_nonpos (by linarith), abs_of_nonpos (by linarith)]
  linarith

/-- Of ascending values only the two around `r` can be the nearest. -/
theorem of_between (hv : StrictMono v) (hlow : v k ≤ r) (hhigh : r < v (k + 1))
    (hn : n = k ∨ n = k + 1) (hbelow : |r - v n| ≤ |r - v k|)
    (habove : |r - v n| ≤ |r - v (k + 1)|) (heven : |r - v k| = |r - v (k + 1)| → n % 2 = 0) :
    IsNearest v r Set.univ n := by
  have hfar : ∀ m, m ≠ k → m ≠ k + 1 → |r - v n| < |r - v m| := by
    intro m hk hsucc
    rcases Nat.lt_or_gt_of_ne hk with hlt | hgt
    · exact lt_of_le_of_lt hbelow (abs_sub_lt_of_le (hv hlt) hlow)
    · exact lt_of_le_of_lt habove (abs_sub_lt_of_ge (hv (by omega)) hhigh.le)
  refine ⟨Set.mem_univ n, fun m _ => ?_, fun m _ hne htie => heven ?_⟩
  · by_cases hk : m = k
    · exact hk ▸ hbelow
    by_cases hsucc : m = k + 1
    · exact hsucc ▸ habove
    exact (hfar m hk hsucc).le
  · have hm : m = k ∨ m = k + 1 := by
      by_contra hnot
      rw [not_or] at hnot
      exact absurd htie (hfar m hnot.1 hnot.2).ne'
    rcases hn with rfl | rfl <;> rcases hm with rfl | rfl
    · exact absurd rfl hne
    · exact htie.symm
    · exact htie
    · exact absurd rfl hne

/-- A number is the nearest to what is half a unit away at the most. -/
theorem of_half (hhalf : |r - n| ≤ 1 / 2) (heven : |r - n| = 1 / 2 → n % 2 = 0) :
    IsNearest (fun m => (m : ℚ)) r Set.univ n := by
  obtain ⟨hlow, hhigh⟩ := abs_le.1 hhalf
  have hfar : ∀ m : Nat, m ≠ n → 1 / 2 ≤ |r - m| := by
    intro m hne
    rcases Nat.lt_or_gt_of_ne hne with hlt | hgt
    · have hcast : (m + 1 : ℚ) ≤ n := by exact_mod_cast hlt
      exact le_abs.2 (.inl (by linarith))
    · have hcast : (n + 1 : ℚ) ≤ m := by exact_mod_cast hgt
      exact le_abs.2 (.inr (by linarith))
  refine ⟨Set.mem_univ n, fun m _ => ?_, fun m _ hne htie => ?_⟩
  · by_cases hmn : m = n
    · rw [hmn]
    · exact hhalf.trans (hfar m hmn)
  · exact heven (le_antisymm hhalf (htie ▸ hfar m hne))

/-- Where the values around `x * f` are the multiples of `f`, the nearest of them is found by
rounding `x`. -/
theorem of_grid {x f : ℚ} {base q : Nat} (hv : StrictMono v) (hf : 0 < f)
    (hq : v (base + q) = q * f) (hsucc : v (base + (q + 1)) = (q + 1 : Nat) * f)
    (hbase : base % 2 = 0) (hlow : q ≤ x) (hhigh : x < (q + 1 : Nat)) (hn : n = q ∨ n = q + 1)
    (h : IsNearest (fun m => (m : ℚ)) x Set.univ n) :
    IsNearest v (x * f) Set.univ (base + n) := by
  have hdist : ∀ j, j = q ∨ j = q + 1 → |x * f - v (base + j)| = |x - j| * f := by
    intro j hj
    have hvalue : v (base + j) = j * f := by
      rcases hj with rfl | rfl
      · exact hq
      · exact hsucc
    rw [hvalue, ← sub_mul, abs_mul, abs_of_pos hf]
  have hnear : ∀ j, j = q ∨ j = q + 1 → |x * f - v (base + n)| ≤ |x * f - v (base + j)| := by
    intro j hj
    rw [hdist n hn, hdist j hj]
    exact mul_le_mul_of_nonneg_right (h.near j (Set.mem_univ j)) hf.le
  refine of_between (k := base + q) hv ?_ ?_ (by omega) (hnear q (.inl rfl))
    (hnear (q + 1) (.inr rfl)) fun htie => ?_
  · rw [hq]
    exact mul_le_mul_of_nonneg_right hlow hf.le
  · rw [Nat.add_assoc, hsucc]
    exact mul_lt_mul_of_pos_right hhigh hf
  · rw [Nat.add_assoc, hdist q (.inl rfl), hdist (q + 1) (.inr rfl)] at htie
    have htie := mul_right_cancel₀ hf.ne' htie
    have heven : n % 2 = 0 := by
      rcases hn with rfl | rfl
      · exact h.even (n + 1) (Set.mem_univ _) (by omega) htie.symm
      · exact h.even q (Set.mem_univ _) (by omega) htie
    omega

/-- Two nearest indices are the same: a value between two even ones would be nearer. -/
theorem unique (hv : StrictMono v) (hm : IsNearest v r (Set.Iic bound) m)
    (hn : IsNearest v r (Set.Iic bound) n) : m = n := by
  wlog hlt : m < n generalizing m n
  · rcases Nat.lt_or_eq_of_le (Nat.le_of_not_lt hlt) with hgt | heq
    · exact (this hn hm hgt).symm
    · exact heq.symm
  have htie : |r - v m| = |r - v n| := le_antisymm (hm.near n hn.mem) (hn.near m hm.mem)
  have hmeven := hm.even n hn.mem hlt.ne' htie.symm
  have hneven := hn.even m hm.mem hlt.ne htie
  have hbetween : m + 1 < n := by omega
  have hnear := hm.near (m + 1) (Set.mem_Iic.2 (hbetween.le.trans (Set.mem_Iic.1 hn.mem)))
  rcases le_total (v (m + 1)) r with hle | hge
  · exact absurd hnear (abs_sub_lt_of_le (hv (Nat.lt_succ_self m)) hle).not_ge
  · have hnext := abs_sub_lt_of_ge (hv hbetween) hge
    rw [← htie] at hnext
    exact absurd hnear hnext.not_ge

/-- A bound that is even takes the place of every value beyond it. -/
theorem cap (hv : StrictMono v) (heven : bound % 2 = 0) (h : IsNearest v r Set.univ n) :
    IsNearest v r (Set.Iic bound) (min n bound) := by
  rcases Nat.lt_or_ge bound n with hlt | hge
  · rw [Nat.min_eq_right hlt.le]
    have hle : v bound ≤ r := by
      by_contra hnot
      have hcloser := abs_sub_lt_of_ge (hv hlt) (le_of_not_ge hnot)
      exact absurd (h.near bound (Set.mem_univ _)) hcloser.not_ge
    refine ⟨Set.mem_Iic.2 le_rfl, fun m hm => ?_, fun _ _ _ _ => heven⟩
    rcases Nat.lt_or_eq_of_le (Set.mem_Iic.1 hm) with hlt | rfl
    · exact (abs_sub_lt_of_le (hv hlt) hle).le
    · exact le_rfl
  · rw [Nat.min_eq_left hge]
    exact ⟨Set.mem_Iic.2 hge, fun m _ => h.near m (Set.mem_univ m),
      fun m _ => h.even m (Set.mem_univ m)⟩

/-- The last of the indices, if even, is taken from the middle before its value on. -/
theorem eq_bound_iff (hv : StrictMono v) (heven : (bound + 1) % 2 = 0)
    (h : IsNearest v r (Set.Iic (bound + 1)) n) :
    n = bound + 1 ↔ v bound + v (bound + 1) ≤ 2 * r := by
  have hstep : v bound < v (bound + 1) := hv (Nat.lt_succ_self bound)
  constructor
  · rintro rfl
    have hnear := h.near bound (Set.mem_Iic.2 (Nat.le_succ bound))
    by_contra hnot
    have hlt : |r - v bound| < |r - v (bound + 1)| := by
      rw [abs_of_neg (by linarith : r - v (bound + 1) < 0)]
      exact abs_lt.2 ⟨by linarith, by linarith⟩
    exact absurd hnear hlt.not_ge
  · intro hle
    by_contra hne
    have hlast : n ≤ bound := Nat.lt_succ_iff.1 (lt_of_le_of_ne (Set.mem_Iic.1 h.mem) hne)
    have hbound : |r - v (bound + 1)| ≤ r - v bound := abs_le.2 ⟨by linarith, by linarith⟩
    have hnear := h.near (bound + 1) (Set.mem_Iic.2 le_rfl)
    rcases Nat.lt_or_eq_of_le hlast with hlt | rfl
    · have hcloser := abs_sub_lt_of_le (hv hlt) (by linarith : v bound ≤ r)
      rw [abs_of_pos (by linarith : 0 < r - v bound)] at hcloser
      linarith
    · rw [abs_of_pos (by linarith : 0 < r - v n)] at hnear
      have htie := h.even (n + 1) (Set.mem_Iic.2 le_rfl) (Nat.succ_ne_self n)
      rw [abs_of_pos (by linarith : 0 < r - v n)] at htie
      have hneven := htie (le_antisymm hbound hnear)
      omega

/-- Another unit changes nothing. -/
theorem scale {c : ℚ} {s : Set Nat} (hc : 0 < c) (h : IsNearest v r s n) :
    IsNearest (fun m => v m / c) (r / c) s n := by
  have hdist : ∀ m, |r / c - v m / c| = |r - v m| / c := by
    intro m
    rw [← sub_div, abs_div, abs_of_pos hc]
  refine ⟨h.mem, fun m hm => ?_, fun m hm hne htie => h.even m hm hne ?_⟩
  · rw [hdist, hdist]
    exact div_le_div_of_nonneg_right (h.near m hm) hc.le
  · rw [hdist, hdist] at htie
    exact (div_left_inj' hc.ne').1 htie

end IsNearest

namespace Binary64

/-! ### Shifts as powers of two -/

theorem infinity_eq : infinity = 0x7ff * 2 ^ 52 := Nat.shiftLeft_eq ..

theorem magnitude_eq (x : Binary64) : x.magnitude = x.bits.toNat % 2 ^ 63 := by
  rw [magnitude, Nat.one_shiftLeft]

theorem isNegative_eq (x : Binary64) : x.isNegative = decide (2 ^ 63 ≤ x.bits.toNat) := by
  rw [isNegative, Nat.one_shiftLeft]

theorem ofMagnitude_eq (negative : Bool) (m : Nat) :
    ofMagnitude negative m = ⟨UInt64.ofNat ((if negative then 2 ^ 63 else 0) + m)⟩ := by
  rw [ofMagnitude, Nat.one_shiftLeft]

theorem nearest_eq (num den : Nat) :
    nearest num den =
      let scaled := num * 2 ^ leastExponent
      let shift := (scaled / den).log2 - 52
      min (shift * 2 ^ 52 + nearestQuotient scaled (den * 2 ^ shift)) infinity := by
  simp only [nearest, Nat.shiftLeft_eq]

/-! ### The value of the bits -/

/-- The value of bits without a sign in units of the least positive one: with a biased
exponent of zero the fraction, and else the fraction after a leading one, doubled for each
exponent past the first. -/
def units (m : Nat) : Nat :=
  let exponent := m / 2 ^ 52
  let fraction := m % 2 ^ 52
  if exponent = 0 then fraction else (2 ^ 52 + fraction) * 2 ^ (exponent - 1)

/-- The value of bits without a sign. -/
def absValue (m : Nat) : ℚ := units m / 2 ^ leastExponent

/-- The bits `s * 2^52 + q` are those of `q * 2^s` units, if `q` has 53 binary digits or `s` is
zero; the least number of 54 digits is read as half of it with the next exponent. -/
theorem units_eq {s q : Nat} (hs : s = 0 ∨ 2 ^ 52 ≤ q) (hq : q ≤ 2 ^ 53) :
    units (s * 2 ^ 52 + q) = q * 2 ^ s := by
  have hcases : q < 2 ^ 52 ∨ 2 ^ 52 ≤ q ∧ q < 2 ^ 53 ∨ q = 2 ^ 53 := by omega
  rcases hcases with hlt | ⟨hge, hlt⟩ | rfl
  · obtain rfl : s = 0 := hs.resolve_right (Nat.not_le.2 hlt)
    have hexponent : (0 * 2 ^ 52 + q) / 2 ^ 52 = 0 := by omega
    have hfraction : (0 * 2 ^ 52 + q) % 2 ^ 52 = q := by omega
    rw [units, hexponent, hfraction, if_pos rfl, Nat.pow_zero, Nat.mul_one]
  · have hexponent : (s * 2 ^ 52 + q) / 2 ^ 52 = s + 1 := by omega
    have hfraction : 2 ^ 52 + (s * 2 ^ 52 + q) % 2 ^ 52 = q := by omega
    rw [units, hexponent, hfraction, if_neg (Nat.succ_ne_zero s), Nat.add_sub_cancel]
  · have hexponent : (s * 2 ^ 52 + 2 ^ 53) / 2 ^ 52 = s + 2 := by omega
    have hfraction : (s * 2 ^ 52 + 2 ^ 53) % 2 ^ 52 = 0 := by omega
    have hdouble : 2 ^ (s + 1) = 2 ^ s * 2 := Nat.pow_succ 2 s
    rw [units, hexponent, hfraction, if_neg (Nat.succ_ne_zero _), show s + 2 - 1 = s + 1 from rfl,
      hdouble]
    omega

/-- All bits are of that form, with a value to follow. -/
theorem exists_shift (m : Nat) :
    ∃ s q, m = s * 2 ^ 52 + q ∧ (s = 0 ∨ 2 ^ 52 ≤ q) ∧ q < 2 ^ 53 := by
  by_cases hexponent : m / 2 ^ 52 = 0
  · exact ⟨0, m, by omega, .inl rfl, by omega⟩
  · exact ⟨m / 2 ^ 52 - 1, 2 ^ 52 + m % 2 ^ 52, by omega, .inr (by omega), by omega⟩

/-- Values ascend with the bits. -/
theorem units_strictMono : StrictMono units := by
  refine strictMono_nat_of_lt_succ fun m => ?_
  obtain ⟨s, q, rfl, hs, hq⟩ := exists_shift m
  rw [Nat.add_assoc, units_eq hs hq.le, units_eq (hs.imp id Nat.le_succ_of_le) hq]
  exact Nat.mul_lt_mul_of_pos_right (Nat.lt_succ_self q) (Nat.two_pow_pos s)

theorem absValue_strictMono : StrictMono absValue := by
  intro m n h
  exact div_lt_div_of_pos_right (Nat.cast_lt.2 (units_strictMono h)) (by positivity)

/-- Infinity stands for the value that follows the greatest finite one. -/
theorem absValue_infinity : absValue infinity = 2 ^ 1024 := by
  have hbits : infinity = 2046 * 2 ^ 52 + 2 ^ 52 := rfl
  have hexponent : 52 + 2046 = 1024 + leastExponent := rfl
  rw [absValue, hbits, units_eq (.inr le_rfl) (by omega), Nat.cast_mul, Nat.cast_pow,
    Nat.cast_pow, Nat.cast_ofNat, div_eq_iff (by positivity), ← pow_add, ← pow_add, hexponent]

/-- The greatest finite value. -/
theorem absValue_pred_infinity : absValue (infinity - 1) = 2 ^ 1024 - 2 ^ 971 := by
  have hbits : infinity - 1 = 2045 * 2 ^ 52 + (2 ^ 53 - 1) := rfl
  have hexponent : 2045 = 971 + leastExponent := rfl
  have hgreatest : (2 : ℚ) ^ 1024 = 2 ^ 53 * 2 ^ 971 := by
    rw [← pow_add]
  rw [absValue, hbits, units_eq (.inr (by omega)) (by omega), Nat.cast_mul, Nat.cast_pow,
    Nat.cast_sub (Nat.one_le_two_pow), Nat.cast_pow, Nat.cast_ofNat, Nat.cast_one,
    div_eq_iff (by positivity), hexponent, pow_add, hgreatest, ← mul_assoc, sub_mul, one_mul]

/-! ### Rounding a rational number -/

/-- What it is for `x` to be the value of the rational number `q`, or of `-q`, correctly
rounded. -/
structure Rounds (negative : Bool) (q : ℚ) (x : Binary64) : Prop where
  sign : x.isNegative = negative
  nearest : IsNearest absValue q (Set.Iic infinity) x.magnitude

/-- A number is determined by its sign and its other bits. -/
theorem ext_magnitude {x y : Binary64} (hsign : x.isNegative = y.isNegative)
    (hmagnitude : x.magnitude = y.magnitude) : x = y := by
  rw [isNegative_eq, isNegative_eq, decide_eq_decide] at hsign
  rw [magnitude_eq, magnitude_eq] at hmagnitude
  have hx := x.bits.toNat_lt
  have hy := y.bits.toNat_lt
  have hbits : x.bits.toNat = y.bits.toNat := by omega
  obtain ⟨bits⟩ := x
  exact congrArg Binary64.mk (UInt64.toNat_inj.1 hbits)

/-- **Rounding has one outcome.** -/
theorem Rounds.unique {negative : Bool} {q : ℚ} {x y : Binary64} (hx : Rounds negative q x)
    (hy : Rounds negative q y) : x = y :=
  ext_magnitude (hx.sign.trans hy.sign.symm) (hx.nearest.unique absValue_strictMono hy.nearest)

/-- A number is rounded to infinity from halfway between the greatest finite value and
`2^1024` on. -/
theorem Rounds.magnitude_eq_infinity_iff {negative : Bool} {q : ℚ} {x : Binary64}
    (h : Rounds negative q x) : x.magnitude = infinity ↔ 2 ^ 1024 - 2 ^ 970 ≤ q := by
  have hbits : infinity = infinity - 1 + 1 := rfl
  have hgap : (2 : ℚ) ^ 971 = 2 * 2 ^ 970 := pow_succ' 2 970
  have hnearest := h.nearest
  rw [hbits] at hnearest
  rw [hbits, hnearest.eq_bound_iff absValue_strictMono rfl, ← hbits, absValue_infinity,
    absValue_pred_infinity, hgap]
  generalize (2 : ℚ) ^ 1024 = top, (2 : ℚ) ^ 970 = half
  constructor
  · intro hle
    linarith
  · intro hge
    linarith

/-! ### What the conversion of a quotient gives -/

/-- The quotient of a number by the power of two that leaves 53 of its binary digits. -/
theorem log2_shift (n : Nat) :
    (n.log2 - 52 = 0 ∨ 2 ^ 52 ≤ n / 2 ^ (n.log2 - 52)) ∧ n / 2 ^ (n.log2 - 52) < 2 ^ 53 := by
  have hhigh : n < 2 ^ (n.log2 + 1) := Nat.lt_log2_self
  rcases Nat.le_total n.log2 52 with hle | hge
  · rw [Nat.sub_eq_zero_of_le hle, Nat.pow_zero, Nat.div_one]
    exact ⟨.inl rfl, hhigh.trans_le (Nat.pow_le_pow_right (by omega) (by omega))⟩
  · obtain ⟨s, hs⟩ := Nat.exists_eq_add_of_le hge
    have hne : n ≠ 0 := by
      rintro rfl
      simp at hge
    have hlow : 2 ^ n.log2 ≤ n := Nat.log2_self_le hne
    rw [hs, Nat.pow_add] at hlow
    rw [hs, show 52 + s + 1 = 53 + s by omega, Nat.pow_add] at hhigh
    rw [hs, Nat.add_sub_cancel_left]
    exact ⟨.inr ((Nat.le_div_iff_mul_le (Nat.two_pow_pos s)).2 hlow),
      (Nat.div_lt_iff_lt_mul (Nat.two_pow_pos s)).2 hhigh⟩

/-- Only an even number is taken for a quotient in the middle of two. -/
theorem nearestQuotient_even {num den : Nat} (hden : 0 < den)
    (htie : 2 * num = (2 * nearestQuotient num den + 1) * den ∨
      2 * nearestQuotient num den * den = 2 * num + den) : nearestQuotient num den % 2 = 0 := by
  have hdiv := Nat.div_add_mod num den
  have hmod := Nat.mod_lt num hden
  have hcomm : num / den * den = den * (num / den) := Nat.mul_comm ..
  simp only [nearestQuotient] at htie ⊢
  split at htie <;> rename_i hround
  · rw [if_pos hround]
    simp only [Nat.add_mul, Nat.mul_assoc, Nat.one_mul] at htie
    omega
  · rw [if_neg hround]
    simp only [Nat.add_mul, Nat.mul_assoc, Nat.one_mul, Nat.mul_add, Nat.mul_one] at htie
    omega

/-- The number taken for a quotient is the nearest of all numbers, the even one of two. -/
theorem isNearest_nearestQuotient {num den : Nat} (hden : 0 < den) :
    IsNearest (fun m => (m : ℚ)) (num / den) Set.univ (nearestQuotient num den) := by
  have hpos : (0 : ℚ) < den := Nat.cast_pos.2 hden
  obtain ⟨hlow, hhigh⟩ := @nearestQuotient_near num den hden
  have heven := @nearestQuotient_even num den hden
  generalize nearestQuotient num den = n at *
  have hupper : (num / den : ℚ) ≤ n + 1 / 2 := by
    have hcast : (2 * num : ℚ) ≤ (2 * n + 1) * den := by exact_mod_cast hlow
    rw [div_le_iff₀ hpos]
    linarith
  have hlower : n - 1 / 2 ≤ (num / den : ℚ) := by
    have hcast : (2 * n * den : ℚ) ≤ 2 * num + den := by exact_mod_cast hhigh
    rw [le_div_iff₀ hpos]
    linarith
  refine .of_half (abs_le.2 ⟨by linarith, by linarith⟩) fun htie => heven ?_
  rcases eq_or_eq_neg_of_abs_eq htie with htie | htie
  · have hmiddle : (num / den : ℚ) = n + 1 / 2 := by linarith
    rw [div_eq_iff hpos.ne'] at hmiddle
    exact .inl (by exact_mod_cast (by linarith : (2 * num : ℚ) = (2 * n + 1) * den))
  · have hmiddle : (num / den : ℚ) = n - 1 / 2 := by linarith
    rw [div_eq_iff hpos.ne'] at hmiddle
    exact .inr (by exact_mod_cast (by linarith : (2 * n * den : ℚ) = 2 * num + den))

theorem nearestQuotient_eq_or (num den : Nat) :
    nearestQuotient num den = num / den ∨ nearestQuotient num den = num / den + 1 := by
  rw [nearestQuotient]
  split
  · exact .inl rfl
  · exact .inr rfl

/-- Rounding to the values of the bits is rounding to multiples of the power of two that
leaves 53 binary digits. -/
theorem isNearest_units {num den s : Nat} (hden : 0 < den)
    (hs : s = 0 ∨ 2 ^ 52 ≤ num / (den * 2 ^ s)) (hlt : num / (den * 2 ^ s) < 2 ^ 53) :
    IsNearest (fun m => (units m : ℚ)) (num / den) Set.univ
      (s * 2 ^ 52 + nearestQuotient num (den * 2 ^ s)) := by
  have hstep : 0 < den * 2 ^ s := Nat.mul_pos hden (Nat.two_pow_pos s)
  have hpos : (0 : ℚ) < (den * 2 ^ s : Nat) := Nat.cast_pos.2 hstep
  have hlow : (num / (den * 2 ^ s) : Nat) ≤ (num / (den * 2 ^ s : Nat) : ℚ) := Nat.cast_div_le
  have hhigh : (num / (den * 2 ^ s : Nat) : ℚ) < (num / (den * 2 ^ s) + 1 : Nat) := by
    have hnext := Nat.lt_mul_div_succ num hstep
    rw [Nat.mul_comm] at hnext
    rw [div_lt_iff₀ hpos]
    exact_mod_cast hnext
  have hscaled : (num / den : ℚ) = num / (den * 2 ^ s : Nat) * 2 ^ s := by
    push_cast
    field_simp
  rw [hscaled]
  refine .of_grid (fun _ _ h => Nat.cast_lt.2 (units_strictMono h)) (by positivity) ?_ ?_ (by omega)
    hlow hhigh (nearestQuotient_eq_or _ _) (isNearest_nearestQuotient hstep)
  · rw [units_eq hs hlt.le]
    push_cast
    rfl
  · rw [units_eq (hs.imp id Nat.le_succ_of_le) hlt]
    push_cast
    rfl

/-- The bits that are computed without the sign are those of the nearest value. -/
theorem nearest_isNearest {num den : Nat} (hden : 0 < den) :
    IsNearest absValue (num / den) (Set.Iic infinity) (nearest num den) := by
  obtain ⟨hs, hlt⟩ := log2_shift (num * 2 ^ leastExponent / den)
  rw [Nat.div_div_eq_div_mul] at hs hlt
  have hunits := (isNearest_units hden hs hlt).scale (c := 2 ^ leastExponent) (by positivity)
  have hratio : ((num * 2 ^ leastExponent : Nat) / den / 2 ^ leastExponent : ℚ) = num / den := by
    rw [Nat.cast_mul, Nat.cast_pow, Nat.cast_ofNat, div_right_comm,
      mul_div_cancel_right₀ _ (by positivity)]
  rw [hratio] at hunits
  rw [nearest_eq]
  exact hunits.cap absValue_strictMono rfl

/-- Infinity and less leave room for the sign. -/
theorem toNat_bits_ofMagnitude (negative : Bool) {m : Nat} (h : m ≤ infinity) :
    m < 2 ^ 63 ∧
      (ofMagnitude negative m).bits.toNat = (if negative then 2 ^ 63 else 0) + m := by
  have hbits := infinity_eq
  have hlt : (if negative then 2 ^ 63 else 0) + m < 2 ^ 64 := by
    split <;> omega
  rw [ofMagnitude_eq]
  exact ⟨by omega, UInt64.toNat_ofNat_of_lt hlt⟩

theorem magnitude_ofMagnitude {negative : Bool} {m : Nat} (h : m ≤ infinity) :
    (ofMagnitude negative m).magnitude = m := by
  obtain ⟨hlt, hbits⟩ := toNat_bits_ofMagnitude negative h
  rw [magnitude_eq, hbits]
  split <;> omega

theorem isNegative_ofMagnitude {negative : Bool} {m : Nat} (h : m ≤ infinity) :
    (ofMagnitude negative m).isNegative = negative := by
  obtain ⟨hlt, hbits⟩ := toNat_bits_ofMagnitude negative h
  rw [isNegative_eq, hbits]
  cases negative
  · exact decide_eq_false (by simpa using hlt)
  · exact decide_eq_true (by simp)

/-- **The conversion of a quotient is correctly rounded.** -/
theorem ofRatio_rounds {num den : Nat} (negative : Bool) (hden : 0 < den) :
    Rounds negative (num / den) (ofRatio negative num den) where
  sign := isNegative_ofMagnitude (nearest_le_infinity num den)
  nearest := by
    rw [ofRatio, magnitude_ofMagnitude (nearest_le_infinity num den)]
    exact nearest_isNearest hden

-- The value nearest to one tenth is above it.
example : ofRatio false 1 10 = ⟨0x3fb999999999999a⟩ := by decide +kernel

-- Halfway between the greatest finite value and `2^1024` the tie goes to infinity.
example : ofRatio true (2 ^ 1024 - 2 ^ 970) 1 = ofMagnitude true infinity := by decide +kernel

end Binary64
end WindowVM
