import Mathlib
import SlotScript.Machine.Operation

/-!
# Left shifts

A sum, a difference or a product of whole numbers is checked: it is the exact result, or an overflow if
this does not have 64 bits. A left shift would be checked in the same way if it were the exact product with
a power of two (`exactShift`). Only its amount is checked, though.

**Theorem (`applyBinary_shl`).** A shift by 0 to 63 gives the lowest 64 bits of the exact product, and
every other shift overflows. So it is the checked shift just if the amount is negative, or if the amount is
less than 64 and the product has 64 bits, or neither.

The two differ where a product has too many bits, which are lost, and where zero is shifted by 64 or more,
which overflows.
-/

namespace SlotScript

/-- The whole number has 64 bits. -/
def FitsInt (n : Int) : Prop := Int64.minValue.toInt ≤ n ∧ n ≤ Int64.maxValue.toInt

instance (n : Int) : Decidable (FitsInt n) := inferInstanceAs (Decidable (_ ∧ _))

/-- A left shift that is checked like the other operations on whole numbers: it is the exact product, or an
overflow if there is none of 64 bits. -/
def exactShift (a b : Int64) : Except Fault Value :=
  if 0 ≤ b.toInt ∧ FitsInt (a.toInt * 2 ^ b.toInt.toNat) then
    .ok (.int (Int64.ofInt (a.toInt * 2 ^ b.toInt.toNat)))
  else .error (.overflow .leftShift)

/-! ## What a shift gives -/

theorem ofInt_two_pow (n : Nat) : BitVec.ofInt 64 (2 ^ n) = BitVec.twoPow 64 n := by
  have hcast : (2 : Int) ^ n = ((2 ^ n : Nat) : Int) := by push_cast; rfl
  apply BitVec.eq_of_toNat_eq
  rw [hcast, BitVec.ofInt_natCast, BitVec.toNat_ofNat, BitVec.toNat_twoPow]

/-- A shift by less than 64 is a product that has lost its upper bits. -/
theorem shiftLeft_eq_ofInt {a b : Int64} (hb : 0 ≤ b.toInt) (hlt : b.toInt < 64) :
    a <<< b = Int64.ofInt (a.toInt * 2 ^ b.toInt.toNat) := by
  have hamount : b.toBitVec.smod 64 = b.toBitVec := by
    apply BitVec.eq_of_toInt_eq
    rw [BitVec.toInt_smod]
    exact Int.fmod_eq_of_lt hb hlt
  have hnat : b.toBitVec.toNat = b.toInt.toNat := by
    have hmsb : b.toBitVec.msb = false := by
      rw [BitVec.msb_eq_toInt]
      simpa using hb
    rw [← Int64.toInt_toBitVec, BitVec.toInt_eq_toNat_of_msb hmsb, Int.toNat_natCast]
  apply Int64.toBitVec_inj.mp
  calc (a <<< b).toBitVec
      = a.toBitVec <<< b.toInt.toNat := by
        rw [Int64.toBitVec_shiftLeft, hamount, BitVec.shiftLeft_eq', hnat]
    _ = BitVec.ofInt 64 a.toInt * BitVec.ofInt 64 (2 ^ b.toInt.toNat) := by
        rw [BitVec.shiftLeft_eq_mul_twoPow, ofInt_two_pow, ← Int64.toInt_toBitVec a, BitVec.ofInt_toInt]
    _ = (Int64.ofInt (a.toInt * 2 ^ b.toInt.toNat)).toBitVec := by
        rw [Int64.toBitVec_ofInt, BitVec.ofInt_mul]

/-- A shift is checked by its amount alone. -/
theorem applyBinary_shl_eq (a b : Int64) :
    applyBinary (.int a) (.int b) .shl =
      if 0 ≤ b.toInt ∧ b.toInt < 64 then .ok (.int (Int64.ofInt (a.toInt * 2 ^ b.toInt.toNat)))
      else .error (.overflow .leftShift) := by
  show shiftInt .leftShift (· <<< ·) a b = _
  rw [shiftInt]
  split
  · next h => rw [shiftLeft_eq_ofInt h.1 h.2]
  · rfl

/-- One value under two checks is the same result if the checks are equivalent, and only then. -/
theorem ite_ok_error_eq_iff {p q : Prop} [Decidable p] [Decidable q] {value : Value} {fault : Fault} :
    ((if p then .ok value else .error fault : Except Fault Value) = if q then .ok value else .error fault) ↔
      (p ↔ q) := by
  by_cases hp : p <;> by_cases hq : q <;> simp [hp, hq]

/-- **A left shift loses the bits that it moves out.** -/
theorem applyBinary_shl (a b : Int64) :
    applyBinary (.int a) (.int b) .shl =
      (if 0 ≤ b.toInt ∧ b.toInt < 64 then .ok (.int (Int64.ofInt (a.toInt * 2 ^ b.toInt.toNat)))
      else .error (.overflow .leftShift)) ∧
    (applyBinary (.int a) (.int b) .shl = exactShift a b ↔
      (0 ≤ b.toInt → (b.toInt < 64 ↔ FitsInt (a.toInt * 2 ^ b.toInt.toNat)))) := by
  refine ⟨applyBinary_shl_eq a b, ?_⟩
  rw [applyBinary_shl_eq, exactShift, ite_ok_error_eq_iff]
  exact and_congr_right_iff

/-- The greatest whole number times two has 65 bits. Its lowest 64 are those of -2. Zero, on the other hand,
has 64 bits times any power of two. -/
theorem applyBinary_shl_lost :
    (applyBinary (.int 9223372036854775807) (.int 1) .shl = .ok (.int (-2)) ∧
      exactShift 9223372036854775807 1 = .error (.overflow .leftShift)) ∧
    applyBinary (.int 0) (.int 64) .shl = .error (.overflow .leftShift) ∧
      exactShift 0 64 = .ok (.int 0) :=
  ⟨⟨rfl, if_neg (by decide)⟩, rfl, if_pos (by decide)⟩

end SlotScript
