import Mathlib
import SlotScript.Decimal.Shortest

/-!
# The numbers that round to a double

The doubles without a sign are numbered by their bits, and a greater number stands for a greater
double. The numbers that round to a double form an interval around it (`RoundsTo`). The upper end of
each interval is the lower end of the next, and of two neighbours only the one with the even mantissa
has its ends.

**Theorem (`RoundsTo.unique`).** No number rounds to two doubles.

**Theorem (`shortest_roundsTo`).** The shortest decimal of a double rounds to it.
-/

namespace SlotScript.Decimal

/-! ## Doubles by number -/

/-- The mantissa of the double with a number. -/
def mantissaOf (n : Nat) : Nat := if n / twoPow 52 = 0 then n else twoPow 52 + n % twoPow 52

/-- How far the exponent of the double with a number is above the least. -/
def stepsOf (n : Nat) : Nat := n / twoPow 52 - 1

/-- The exponent of the double with a number. -/
def powerOf (n : Nat) : Int := minExponent + stepsOf n

theorem twoPow_52 : twoPow 52 = 4503599627370496 := by rfl

theorem infinityBits_eq : infinityBits = 9218868437227405312 := by rfl

theorem ofBits_of_lt {bits : UInt64} (h : bits.toNat < infinityBits) :
    Binary64.ofBits bits = .finite false (mantissaOf bits.toNat) (powerOf bits.toNat) := by
  rw [infinityBits_eq] at h
  have hsign : ¬ signBit ≤ bits.toNat := by
    rw [show signBit = 9223372036854775808 by rfl]
    omega
  have hfield : bits.toNat / twoPow 52 % 2048 = bits.toNat / twoPow 52 := by
    rw [twoPow_52]
    omega
  have hfinite : bits.toNat / twoPow 52 ≠ 2047 := by
    rw [twoPow_52]
    omega
  rw [Binary64.ofBits, hfield, if_neg hfinite, decide_eq_false hsign]
  unfold mantissaOf powerOf stepsOf
  split
  · rename_i hzero
    have hsmall : bits.toNat % twoPow 52 = bits.toNat := by
      rw [twoPow_52] at hzero ⊢
      omega
    rw [hsmall, hzero]
    rfl
  · rfl

theorem mantissaOf_mod (n : Nat) : mantissaOf n % 2 = n % 2 := by
  unfold mantissaOf
  rw [twoPow_52]
  split <;> omega

/-! ## Intervals -/

/-- The interval of the double with a number. -/
def intervalOf (n : Nat) : Interval := Interval.around (mantissaOf n) (powerOf n)

/-- A number lies in the interval. -/
def Interval.Holds (i : Interval) (x : ℚ) : Prop :=
  if i.closed then i.low ≤ x ∧ x ≤ i.high else i.low < x ∧ x < i.high

theorem Interval.contains_iff (i : Interval) {n d : Nat} (hd : 0 < d) :
    i.contains n d = true ↔ i.Holds (n / d) := by
  have hd : (0 : ℚ) < d := by exact_mod_cast hd
  unfold contains Holds
  split
  · rw [Bool.and_eq_true, decide_eq_true_eq, decide_eq_true_eq, le_div_iff₀ hd, div_le_iff₀ hd]
    norm_cast
  · rw [Bool.and_eq_true, decide_eq_true_eq, decide_eq_true_eq, lt_div_iff₀ hd, div_lt_iff₀ hd]
    norm_cast

theorem Interval.Holds.bounds {i : Interval} {x : ℚ} (h : i.Holds x) : i.low ≤ x ∧ x ≤ i.high := by
  unfold Holds at h
  split at h
  · exact h
  · exact ⟨h.1.le, h.2.le⟩

/-- The unit that suits the ends of every interval is so many times smaller than one. -/
def finest : ℚ := 2 ^ (1076 : ℤ)

/-- The lower end of an interval in this unit. -/
def lowerOf (n : Nat) : Nat := (intervalOf n).low * 2 ^ stepsOf n

/-- The upper end of an interval in this unit. -/
def upperOf (n : Nat) : Nat := (intervalOf n).high * 2 ^ stepsOf n

/-- Each interval ends where the next begins. -/
theorem upperOf_eq_lowerOf_succ (n : Nat) : upperOf n = lowerOf (n + 1) := by
  by_cases hlast : n % 4503599627370496 + 1 = 4503599627370496
  · -- The last double with its exponent: the next has the least mantissa.
    have hfield : (n + 1) / 4503599627370496 = n / 4503599627370496 + 1 := by omega
    have hfraction : (n + 1) % 4503599627370496 = 0 := by omega
    simp only [upperOf, lowerOf, intervalOf, Interval.around, mantissaOf, powerOf, stepsOf, twoPow_52,
      hfield, hfraction]
    by_cases hzero : n / 4503599627370496 = 0
    · obtain rfl : n = 4503599627370495 := by omega
      norm_num
    · obtain ⟨steps, hsteps⟩ := Nat.exists_eq_succ_of_ne_zero hzero
      have hmantissa : n % 4503599627370496 = 4503599627370495 := by omega
      have hpower : minExponent < minExponent + ((steps + 1 : Nat) : Int) := by omega
      simp only [hsteps, hmantissa, Nat.succ_eq_add_one, if_neg (Nat.succ_ne_zero _), Nat.add_zero,
        Nat.add_sub_cancel, hpower, and_true, if_true, pow_succ]
      omega
  · have hfield : (n + 1) / 4503599627370496 = n / 4503599627370496 := by omega
    have hfraction : (n + 1) % 4503599627370496 = n % 4503599627370496 + 1 := by omega
    simp only [upperOf, lowerOf, intervalOf, Interval.around, mantissaOf, powerOf, stepsOf, twoPow_52,
      hfield, hfraction]
    congr 1
    by_cases hzero : n / 4503599627370496 = 0
    · rw [if_pos hzero, if_pos hzero, if_neg (by omega)]
      omega
    · rw [if_neg hzero, if_neg hzero, if_neg (by omega)]
      omega

theorem lowerOf_lt_upperOf (n : Nat) : lowerOf n < upperOf n := by
  refine Nat.mul_lt_mul_of_pos_right ?_ (Nat.two_pow_pos _)
  simp only [intervalOf, Interval.around]
  split <;> omega

theorem upperOf_le_lowerOf {n n' : Nat} (h : n < n') : upperOf n ≤ lowerOf n' := by
  induction n', h using Nat.le_induction with
  | base => exact (upperOf_eq_lowerOf_succ n).le
  | succ m _ ih =>
    rw [← upperOf_eq_lowerOf_succ]
    exact ih.trans (lowerOf_lt_upperOf m).le

/-! ## Rounding -/

/-- The number rounds to the double with a number. -/
def RoundsTo (x : ℚ) (n : Nat) : Prop := (intervalOf n).Holds (x * 2 ^ (2 - powerOf n))

theorem scale_eq (x : ℚ) (n : Nat) :
    x * 2 ^ (2 - powerOf n) = x * finest / (2 ^ stepsOf n : Nat) := by
  have hpower : (2 : ℤ) - powerOf n = 1076 - (stepsOf n : ℕ) := by
    rw [powerOf, minExponent]
    omega
  rw [hpower, zpow_sub₀ two_ne_zero, zpow_natCast, mul_div_assoc, finest, Nat.cast_pow,
    Nat.cast_ofNat]

theorem RoundsTo.bounds {x : ℚ} {n : Nat} (h : RoundsTo x n) :
    lowerOf n ≤ x * finest ∧ x * finest ≤ upperOf n := by
  have hpos : (0 : ℚ) < (2 ^ stepsOf n : Nat) := by exact_mod_cast Nat.two_pow_pos _
  obtain ⟨hlow, hhigh⟩ := Interval.Holds.bounds h
  rw [scale_eq, le_div_iff₀ hpos] at hlow
  rw [scale_eq, div_le_iff₀ hpos] at hhigh
  rw [lowerOf, upperOf, Nat.cast_mul, Nat.cast_mul]
  exact ⟨hlow, hhigh⟩

/-- The ends of an interval round to its double only if its number is even. -/
theorem RoundsTo.ends {x : ℚ} {n : Nat} (h : RoundsTo x n) (hodd : n % 2 = 1) :
    lowerOf n < x * finest ∧ x * finest < upperOf n := by
  have hpos : (0 : ℚ) < (2 ^ stepsOf n : Nat) := by exact_mod_cast Nat.two_pow_pos _
  have hopen : (intervalOf n).closed = false := by
    simp [intervalOf, Interval.around, mantissaOf_mod, hodd]
  rw [RoundsTo, Interval.Holds, hopen, if_neg Bool.false_ne_true, scale_eq, lt_div_iff₀ hpos,
    div_lt_iff₀ hpos] at h
  rw [lowerOf, upperOf, Nat.cast_mul, Nat.cast_mul]
  exact h

theorem RoundsTo.not_lt {x : ℚ} {n n' : Nat} (h : RoundsTo x n) (h' : RoundsTo x n') : ¬ n < n' := by
  intro hlt
  have hbetween : (upperOf n : ℚ) ≤ lowerOf n' := by exact_mod_cast upperOf_le_lowerOf hlt
  by_cases hnext : n' = n + 1
  · -- Of two neighbours one has an odd number, and the common end does not round to it.
    subst hnext
    rcases Nat.mod_two_eq_zero_or_one n with heven | hodd
    · have hends := h'.ends (by omega)
      linarith [h.bounds.2, hends.1]
    · have hends := h.ends hodd
      linarith [h'.bounds.1, hends.2]
  · have hfirst : (upperOf n : ℚ) ≤ lowerOf (n + 1) := by
      exact_mod_cast upperOf_le_lowerOf (Nat.lt_succ_self n)
    have hmiddle : (lowerOf (n + 1) : ℚ) < upperOf (n + 1) := by
      exact_mod_cast lowerOf_lt_upperOf (n + 1)
    have hlast : (upperOf (n + 1) : ℚ) ≤ lowerOf n' := by
      exact_mod_cast upperOf_le_lowerOf (by omega)
    linarith [h.bounds.2, h'.bounds.1]

/-- **No number rounds to two doubles.** -/
theorem RoundsTo.unique {x : ℚ} {n n' : Nat} (h : RoundsTo x n) (h' : RoundsTo x n') : n = n' :=
  Nat.le_antisymm (Nat.le_of_not_lt (h'.not_lt h)) (Nat.le_of_not_lt (h.not_lt h'))

/-! ## Decimals -/

/-- The number that a decimal stands for. -/
def Digits.value (d : Digits) : ℚ := d.digits * 10 ^ d.exponent

/-- A power with a whole exponent as a fraction. -/
theorem zpow_eq_div (b : ℚ) (e : ℤ) : b ^ e = b ^ e.toNat / b ^ (-e).toNat := by
  rcases Int.eq_nat_or_neg e with ⟨n, rfl | rfl⟩ <;> simp

theorem gridPoint_holds {m : Nat} {q p : Int} {d : Digits} (h : gridPoint m q p = some d) :
    (Interval.around m q).Holds (d.value * 2 ^ (2 - q)) := by
  have hscale : 0 < tenPow (-p).toNat * twoPow (q - 2).toNat :=
    Nat.mul_pos (Nat.pow_pos (by decide)) (Nat.pow_pos (by decide))
  have hhit : ∃ k, d = ⟨k, p⟩ ∧ (Interval.around m q).contains
      (k * (tenPow p.toNat * twoPow (2 - q).toNat)) (tenPow (-p).toNat * twoPow (q - 2).toNat) = true := by
    unfold gridPoint at h
    dsimp only at h
    split at h
    · rename_i hhit
      exact ⟨_, (Option.some.inj h).symm, (Bool.and_eq_true_iff.mp hhit).1⟩
    · split at h
      · rename_i hhit
        exact ⟨_, (Option.some.inj h).symm, hhit⟩
      · cases h
  obtain ⟨k, rfl, hhit⟩ := hhit
  rw [Interval.contains_iff _ hscale] at hhit
  convert hhit using 1
  have hten := zpow_eq_div 10 p
  have htwo := zpow_eq_div 2 (2 - q)
  rw [neg_sub] at htwo
  rw [Digits.value, hten, htwo]
  simp only [tenPow, twoPow, Nat.pow_eq]
  push_cast
  ring

theorem exactDigits_value (m : Nat) (q : Int) : (exactDigits m q).value = m * 2 ^ q := by
  rcases Int.eq_nat_or_neg q with ⟨n, rfl | rfl⟩
  · simp [exactDigits, Digits.value, twoPow]
  · have hmin : min (-(n : ℤ)) 0 = -n := by omega
    simp only [exactDigits, Digits.value, twoPow, hmin, Int.toNat_neg_natCast, neg_neg, Int.toNat_natCast,
      Nat.pow_eq, zpow_neg, zpow_natCast]
    push_cast
    rw [show (10 : ℚ) = 5 * 2 by norm_num, mul_pow]
    field_simp

/-- The shortest decimal lies in the interval that it is taken from. -/
theorem shortest_holds (m : Nat) (q : Int) :
    (Interval.around m q).Holds ((shortest m q).value * 2 ^ (2 - q)) := by
  unfold shortest
  split
  · rename_i hzero
    simp [hzero, Interval.around, Interval.Holds, Digits.value]
  · rename_i hzero
    cases hgrid : gridExponents.findSome? (gridPoint m q) with
    | some d =>
      obtain ⟨p, -, hpoint⟩ := List.exists_of_findSome?_eq_some hgrid
      exact gridPoint_holds hpoint
    | none =>
      have hmiddle : (exactDigits m q).value * 2 ^ (2 - q) = 4 * m := by
        rw [exactDigits_value, mul_assoc, ← zpow_add₀ two_ne_zero, add_sub_cancel]
        norm_num [mul_comm]
      have hlow : (Interval.around m q).low < 4 * m := by
        simp only [Interval.around]
        split <;> omega
      have hlow : ((Interval.around m q).low : ℚ) < 4 * m := by exact_mod_cast hlow
      have hhigh : ((Interval.around m q).high : ℚ) = 4 * m + 2 := by simp [Interval.around]
      rw [Option.getD_none, hmiddle, Interval.Holds, hhigh]
      split
      · exact ⟨hlow.le, by linarith⟩
      · exact ⟨hlow, by linarith⟩

/-- **The shortest decimal of a double rounds to it.** -/
theorem shortest_roundsTo (n : Nat) :
    RoundsTo (shortest (mantissaOf n) (powerOf n)).value n := shortest_holds _ _

end SlotScript.Decimal
