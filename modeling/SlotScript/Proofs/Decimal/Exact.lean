import SlotScript.Decimal.Written
import SlotScript.Proofs.Decimal.Interval

/-!
# Doubles by their text

A decimal is read back from its text (`writtenNumber`): the digits without the point, times a power
of ten that the places after the point and the exponent after the `e` give. So the text of a double
determines its shortest decimal as a number, and that number rounds to no other double.

**Theorem (`exact_injective`).** Two doubles without a sign have the same text only if they are the
same.
-/

namespace SlotScript.Decimal

/-! ## Reading a decimal -/

/-- The digits after the point. -/
def placesOf (mantissa : List Char) : List Char := (mantissa.dropWhile (· ≠ '.')).drop 1

/-- The number that digits with a point stand for. -/
def mantissaValue (mantissa : List Char) : ℚ :=
  Nat.ofDigitChars 10 (mantissa.filter (· ≠ '.')) 0 * 10 ^ (-(placesOf mantissa).length : ℤ)

/-- The power of ten that stands after an `e`, or none. -/
def writtenPower (text : List Char) : ℤ := (String.ofList (text.drop 1)).toInt?.getD 0

/-- The number that the text of a decimal stands for. -/
def writtenNumber (text : List Char) : ℚ :=
  mantissaValue (text.takeWhile (· ≠ 'e')) * 10 ^ writtenPower (text.dropWhile (· ≠ 'e'))

theorem isDigit_of_mem_toDigits {n : Nat} {c : Char} (h : c ∈ Nat.toDigits 10 n) : c.isDigit = true :=
  Nat.isDigit_of_mem_toDigits (by decide) (by decide) h

theorem ne_of_isDigit {c d : Char} (hc : c.isDigit = true) (hd : d.isDigit = false) : c ≠ d := by
  rintro rfl
  rw [hc] at hd
  cases hd

variable {digits whole places : List Char}

theorem filter_digits (h : ∀ c ∈ digits, c.isDigit = true) : digits.filter (· ≠ '.') = digits :=
  List.filter_eq_self.mpr fun c hc => decide_eq_true (ne_of_isDigit (h c hc) (by decide))

theorem mantissaValue_digits (h : ∀ c ∈ digits, c.isDigit = true) :
    mantissaValue digits = Nat.ofDigitChars 10 digits 0 := by
  have hplaces : placesOf digits = [] := by
    have hdrop : digits.dropWhile (· ≠ '.') = [] :=
      List.dropWhile_eq_nil_iff.mpr fun c hc => decide_eq_true (ne_of_isDigit (h c hc) (by decide))
    rw [placesOf, hdrop, List.drop_nil]
  rw [mantissaValue, filter_digits h, hplaces]
  simp

theorem mantissaValue_point (hwhole : ∀ c ∈ whole, c.isDigit = true)
    (hplaces : ∀ c ∈ places, c.isDigit = true) :
    mantissaValue (whole ++ '.' :: places) =
      Nat.ofDigitChars 10 (whole ++ places) 0 * 10 ^ (-places.length : ℤ) := by
  have hafter : placesOf (whole ++ '.' :: places) = places := by
    rw [placesOf, List.dropWhile_append_of_pos fun c hc =>
      decide_eq_true (ne_of_isDigit (hwhole c hc) (by decide))]
    simp
  have hfilter : (whole ++ '.' :: places).filter (· ≠ '.') = whole ++ places := by
    rw [List.filter_append, filter_digits hwhole, List.filter_cons_of_neg (by simp),
      filter_digits hplaces]
  rw [mantissaValue, hfilter, hafter]

theorem writtenNumber_plain {text : List Char} (h : 'e' ∉ text) :
    writtenNumber text = mantissaValue text := by
  have hall : ∀ c ∈ text, decide (c ≠ 'e') = true := fun c hc =>
    decide_eq_true fun hce => h (hce ▸ hc)
  have hpower : writtenPower [] = 0 := by cbv
  rw [writtenNumber, List.takeWhile_eq_self_iff.mpr hall, List.dropWhile_eq_nil_iff.mpr hall, hpower]
  simp

theorem writtenNumber_power {mantissa : List Char} (h : 'e' ∉ mantissa) (power : ℤ) :
    writtenNumber (mantissa ++ 'e' :: power.repr.toList) = mantissaValue mantissa * 10 ^ power := by
  have hall : ∀ c ∈ mantissa, decide (c ≠ 'e') = true := fun c hc =>
    decide_eq_true fun hce => h (hce ▸ hc)
  have hpower : writtenPower ('e' :: power.repr.toList) = power := by
    rw [writtenPower, List.drop_one, List.tail_cons, String.ofList_toList, Int.toInt?_repr,
      Option.getD_some]
  rw [writtenNumber, List.takeWhile_append_of_pos hall, List.dropWhile_append_of_pos hall]
  simp [hpower]

/-! ## The texts of a decimal -/

/-- The text of a decimal: it starts with a digit, and has a point or an exponent. -/
structure Numeral (text : List Char) : Prop where
  head : ∃ c, text.head? = some c ∧ c.isDigit = true
  chars : ∀ c ∈ text, c.isDigit = true ∨ c ∈ ['.', 'e', '-']
  mark : '.' ∈ text ∨ 'e' ∈ text

theorem numeral_point (hwhole : ∀ c ∈ whole, c.isDigit = true) (hne : whole ≠ [])
    (hplaces : ∀ c ∈ places, c.isDigit = true) : Numeral (whole ++ '.' :: places) where
  head := by
    obtain ⟨c, rest, rfl⟩ := List.exists_cons_of_ne_nil hne
    exact ⟨c, rfl, hwhole c (by simp)⟩
  chars := by
    intro c hc
    rcases List.mem_append.mp hc with hc | hc
    · exact .inl (hwhole c hc)
    · rcases List.mem_cons.mp hc with rfl | hc
      · exact .inr (by simp)
      · exact .inl (hplaces c hc)
  mark := .inl (by simp)

theorem not_mem_point (hwhole : ∀ c ∈ whole, c.isDigit = true)
    (hplaces : ∀ c ∈ places, c.isDigit = true) : 'e' ∉ whole ++ '.' :: places := by
  intro hmem
  rcases List.mem_append.mp hmem with hmem | hmem
  · cases hwhole 'e' hmem
  · rcases List.mem_cons.mp hmem with heq | hmem
    · cases heq
    · cases hplaces 'e' hmem

/-- A decimal with a point, by the digits on both sides of it. -/
theorem exists_positional (d : Digits) : ∃ whole places : List Char,
    d.positional.toList = whole ++ '.' :: places ∧ whole ≠ [] ∧
      (∀ c ∈ whole, c.isDigit = true) ∧ (∀ c ∈ places, c.isDigit = true) ∧
      (Nat.ofDigitChars 10 (whole ++ places) 0 : ℚ) * 10 ^ (-places.length : ℤ) = d.value := by
  obtain ⟨n, e⟩ := d
  have hdigit : ∀ c ∈ Nat.toDigits 10 n, c.isDigit = true := fun c => isDigit_of_mem_toDigits
  have hzero : ∀ k, ∀ c ∈ List.replicate k '0', c.isDigit = true := by
    intro k c hc
    rw [(List.mem_replicate.mp hc).2]
    decide
  have htext : (toString n).toList = Nat.toDigits 10 n := Nat.toList_repr
  have hne : Nat.toDigits 10 n ≠ [] := Nat.toDigits_ne_nil
  have hpositive : 0 < (Nat.toDigits 10 n).length := List.length_pos_iff.mpr hne
  unfold Digits.positional
  simp only [htext]
  split
  · rename_i hexponent
    obtain ⟨k, rfl⟩ := Int.eq_ofNat_of_zero_le hexponent
    refine ⟨Nat.toDigits 10 n ++ List.replicate k '0', ['0'], ?_, by simp [hne], ?_, by simp, ?_⟩
    · simp [zeros]
    · intro c hc
      rcases List.mem_append.mp hc with hc | hc
      · exact hdigit c hc
      · exact hzero k c hc
    · have hvalue : Nat.ofDigitChars 10 (Nat.toDigits 10 n ++ List.replicate k '0' ++ ['0']) 0 =
          n * 10 ^ k * 10 := by
        rw [List.append_assoc, ← List.replicate_succ', Nat.ofDigitChars_append,
          Nat.ofDigitChars_ten_toDigits, Nat.ofDigitChars_replicate_zero, pow_succ]
        ring
      rw [hvalue, Digits.value]
      push_cast
      simp
  · rename_i hexponent
    split
    · rename_i hpoint
      let point := ((Nat.toDigits 10 n).length + e).toNat
      refine ⟨(Nat.toDigits 10 n).take point, (Nat.toDigits 10 n).drop point, ?_, ?_, ?_, ?_, ?_⟩
      · simp [point]
      · intro hnil
        have hlength := congrArg List.length hnil
        rw [List.length_take, List.length_nil] at hlength
        omega
      · exact fun c hc => hdigit c (List.mem_of_mem_take hc)
      · exact fun c hc => hdigit c (List.mem_of_mem_drop hc)
      · have hlength : (-((Nat.toDigits 10 n).drop point).length : ℤ) = e := by
          rw [List.length_drop]
          omega
        rw [List.take_append_drop, Nat.ofDigitChars_ten_toDigits, hlength]
        rfl
    · rename_i hpoint
      let gap := (-((Nat.toDigits 10 n).length + e)).toNat
      refine ⟨['0'], List.replicate gap '0' ++ Nat.toDigits 10 n, ?_, by simp, by simp, ?_, ?_⟩
      · simp [zeros, gap]
      · intro c hc
        rcases List.mem_append.mp hc with hc | hc
        · exact hzero gap c hc
        · exact hdigit c hc
      · have hvalue : Nat.ofDigitChars 10 (['0'] ++ (List.replicate gap '0' ++ Nat.toDigits 10 n)) 0 =
            n := by
          rw [← List.append_assoc, List.singleton_append, ← List.replicate_succ,
            Nat.ofDigitChars_append, Nat.ofDigitChars_replicate_zero, Nat.mul_zero,
            Nat.ofDigitChars_ten_toDigits]
        have hlength : (-(List.replicate gap '0' ++ Nat.toDigits 10 n).length : ℤ) = e := by
          rw [List.length_append, List.length_replicate]
          omega
        rw [hvalue, hlength]
        rfl

/-- A decimal with an exponent, by its mantissa. -/
theorem exists_scientific (d : Digits) : ∃ (mantissa : List Char) (power : ℤ),
    d.scientific.toList = mantissa ++ 'e' :: power.repr.toList ∧ 'e' ∉ mantissa ∧
      (∃ c, mantissa.head? = some c ∧ c.isDigit = true) ∧
      (∀ c ∈ mantissa, c.isDigit = true ∨ c = '.') ∧ mantissaValue mantissa * 10 ^ power = d.value := by
  obtain ⟨n, e⟩ := d
  have hdigit : ∀ c ∈ Nat.toDigits 10 n, c.isDigit = true := fun c => isDigit_of_mem_toDigits
  have htext : (toString n).toList = Nat.toDigits 10 n := Nat.toList_repr
  have hvalue : Nat.ofDigitChars 10 (Nat.toDigits 10 n) 0 = n := Nat.ofDigitChars_ten_toDigits
  have hne : Nat.toDigits 10 n ≠ [] := Nat.toDigits_ne_nil
  unfold Digits.scientific
  simp only [htext]
  generalize Nat.toDigits 10 n = text at hdigit hvalue hne
  rcases text with _ | ⟨first, _ | ⟨second, rest⟩⟩
  · exact absurd rfl hne
  · refine ⟨[first], e, by simp, ?_, ⟨first, rfl, hdigit first (by simp)⟩, ?_, ?_⟩
    · intro hmem
      cases hdigit 'e' hmem
    · exact fun c hc => .inl (hdigit c hc)
    · rw [mantissaValue_digits hdigit, hvalue]
      rfl
  · have hfirst : ∀ c ∈ [first], c.isDigit = true := fun c hc => hdigit c (by simp_all)
    have hplaces : ∀ c ∈ second :: rest, c.isDigit = true := fun c hc => hdigit c (by simp_all)
    refine ⟨[first] ++ '.' :: second :: rest, (rest.length : ℤ) + 1 + e, ?_,
      not_mem_point hfirst hplaces, ⟨first, rfl, hfirst first (by simp)⟩, ?_, ?_⟩
    · simp
    · intro c hc
      rcases List.mem_append.mp hc with hc | hc
      · exact .inl (hfirst c hc)
      · rcases List.mem_cons.mp hc with rfl | hc
        · exact .inr rfl
        · exact .inl (hplaces c hc)
    · rw [mantissaValue_point hfirst hplaces, List.singleton_append, hvalue, mul_assoc,
        ← zpow_add₀ (by norm_num), Digits.value]
      congr 2
      push_cast [List.length_cons]
      ring

theorem mem_repr {power : ℤ} {c : Char} (h : c ∈ power.repr.toList) : c.isDigit = true ∨ c = '-' := by
  cases power with
  | ofNat n =>
    have hlist : (Int.ofNat n).repr.toList = Nat.toDigits 10 n := Nat.toList_repr
    rw [hlist] at h
    exact .inl (isDigit_of_mem_toDigits h)
  | negSucc n =>
    have hlist : (Int.negSucc n).repr.toList = '-' :: Nat.toDigits 10 (n + 1) := by
      rw [Int.repr, String.toList_append, Nat.toList_repr]
      rfl
    rw [hlist] at h
    rcases List.mem_cons.mp h with rfl | h
    · exact .inr rfl
    · exact .inl (isDigit_of_mem_toDigits h)

/-- Both texts of a decimal are numerals, and stand for its number. -/
theorem numeral_texts (d : Digits) (text : String)
    (h : text = d.positional ∨ text = d.scientific) :
    Numeral text.toList ∧ writtenNumber text.toList = d.value := by
  rcases h with rfl | rfl
  · obtain ⟨whole, places, htext, hne, hwhole, hplaces, hvalue⟩ := exists_positional d
    rw [htext, writtenNumber_plain (not_mem_point hwhole hplaces),
      mantissaValue_point hwhole hplaces]
    exact ⟨numeral_point hwhole hne hplaces, hvalue⟩
  · obtain ⟨mantissa, power, htext, hmem, ⟨first, hfirst, hdigit⟩, hchars, hvalue⟩ :=
      exists_scientific d
    rw [htext, writtenNumber_power hmem]
    refine ⟨⟨⟨first, ?_, hdigit⟩, ?_, .inr (by simp)⟩, hvalue⟩
    · rw [List.head?_append, hfirst]
      rfl
    · intro c hc
      rcases List.mem_append.mp hc with hc | hc
      · exact (hchars c hc).imp_right fun hc => by simp [hc]
      · rcases List.mem_cons.mp hc with rfl | hc
        · exact .inr (by simp)
        · exact (mem_repr hc).imp_right fun hc => by simp [hc]

/-! ## The text of a double -/

theorem exact_of_eq {bits : UInt64} (h : bits.toNat = infinityBits) : exact bits = "inf" := by
  have hbits : bits = infinityBits.toUInt64 := UInt64.toNat_inj.mp (h.trans (by decide))
  rw [hbits]
  decide

theorem exact_of_lt {bits : UInt64} (h : bits.toNat < infinityBits) :
    Numeral (exact bits).toList ∧ RoundsTo (writtenNumber (exact bits).toList) bits.toNat := by
  let d := shortest (mantissaOf bits.toNat) (powerOf bits.toNat)
  have htext : exact bits = d.positional ∨ exact bits = d.scientific := by
    rw [exact, ofBits_of_lt h]
    dsimp only [signed]
    rw [if_neg Bool.false_ne_true]
    split
    · exact .inl rfl
    · exact .inr rfl
  obtain ⟨hnumeral, hvalue⟩ := numeral_texts d (exact bits) htext
  rw [hvalue]
  exact ⟨hnumeral, shortest_roundsTo _⟩

theorem Numeral.ne_inf {text : List Char} (h : Numeral text) : text ≠ "inf".toList := by
  rintro rfl
  obtain ⟨c, hc, hdigit⟩ := h.head
  cases hc
  cases hdigit

/-- **The text of a double without a sign determines it.** -/
theorem exact_injective {bits bits' : UInt64} (h : bits.toNat ≤ infinityBits)
    (h' : bits'.toNat ≤ infinityBits) (htext : exact bits = exact bits') : bits = bits' := by
  rcases h.lt_or_eq with hlt | heq <;> rcases h'.lt_or_eq with hlt' | heq'
  · have hrounds := (exact_of_lt hlt).2
    rw [htext] at hrounds
    exact UInt64.toNat_inj.mp (hrounds.unique (exact_of_lt hlt').2)
  · have hnumeral := (exact_of_lt hlt).1
    rw [htext, exact_of_eq heq'] at hnumeral
    exact absurd rfl hnumeral.ne_inf
  · have hnumeral := (exact_of_lt hlt').1
    rw [← htext, exact_of_eq heq] at hnumeral
    exact absurd rfl hnumeral.ne_inf
  · exact UInt64.toNat_inj.mp (heq.trans heq'.symm)

end SlotScript.Decimal
