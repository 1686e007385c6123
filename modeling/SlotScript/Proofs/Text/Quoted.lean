import Mathlib.Data.Nat.Digits.Defs
import SlotScript.Text.Quoted

/-!
# Quoted texts can be read back

A quoted text ends with the first quote that no backslash stands before, and what stands between the
quotes determines the text.

**Theorem (`Text.quote_unique`).** If two quoted texts, each with something after it, are the same
characters, then the texts are the same, and so is what comes after them.

Every character is written as a word of its own: itself, or a backslash and what follows. No such word is
the beginning of another one (`Text.escape_unique`).
-/

namespace SlotScript

/-- Where two texts agree, a stretch of characters of one kind is the same in both, if something of
another kind or nothing comes after it. -/
theorem append_unique {p : Char → Bool} {word word' rest rest' : List Char}
    (hword : ∀ c ∈ word, p c = true) (hword' : ∀ c ∈ word', p c = true)
    (hrest : ∀ c ∈ rest.head?, p c = false) (hrest' : ∀ c ∈ rest'.head?, p c = false)
    (h : word ++ rest = word' ++ rest') : word = word' ∧ rest = rest' := by
  induction word generalizing word' with
  | nil =>
    cases word' with
    | nil => exact ⟨rfl, h⟩
    | cons c word' =>
      obtain rfl : rest = c :: (word' ++ rest') := h
      have hc := hrest c rfl
      rw [hword' c List.mem_cons_self] at hc
      cases hc
  | cons c word ih =>
    cases word' with
    | nil =>
      obtain rfl : c :: (word ++ rest) = rest' := h
      have hc := hrest' c rfl
      rw [hword c List.mem_cons_self] at hc
      cases hc
    | cons c' word' =>
      obtain ⟨rfl, htail⟩ := List.cons.inj h
      rw [List.forall_mem_cons] at hword hword'
      obtain ⟨rfl, rfl⟩ := ih hword.2 hword'.2 htail
      exact ⟨rfl, rfl⟩

namespace Text

/-! ## Code points in hexadecimal -/

theorem digitChar_inj {d e : Nat} (hd : d < 16) (he : e < 16) (h : d.digitChar = e.digitChar) : d = e := by
  have hall : ∀ d < 16, ∀ e < 16, Nat.digitChar d = Nat.digitChar e → d = e := by decide
  exact hall d hd e he h

/-- A number of more than one digit, by its last digit. -/
theorem toDigits_hex {n : Nat} (h : 16 ≤ n) :
    Nat.toDigits 16 n = Nat.toDigits 16 (n / 16) ++ [(n % 16).digitChar] := by
  have hlt : n % 16 < 16 := Nat.mod_lt n (by decide)
  have hpos : 0 < n / 16 := Nat.div_pos h (by decide)
  rw [← Nat.toDigits_of_lt_base hlt, Nat.toDigits_append_toDigits (by decide) hpos hlt, Nat.div_add_mod]

theorem toDigits_hex_inj {n m : Nat} (h : Nat.toDigits 16 n = Nat.toDigits 16 m) : n = m := by
  induction n using Nat.strong_induction_on generalizing m with
  | _ n ih =>
    by_cases hn : n < 16
    · by_cases hm : m < 16
      · rw [Nat.toDigits_of_lt_base hn, Nat.toDigits_of_lt_base hm] at h
        exact digitChar_inj hn hm (List.cons.inj h).1
      · have hlength := congrArg List.length h
        rw [Nat.toDigits_of_lt_base hn, toDigits_hex (Nat.le_of_not_lt hm), List.length_append] at hlength
        have hpos : 0 < (Nat.toDigits 16 (m / 16)).length := Nat.length_toDigits_pos
        simp only [List.length_cons, List.length_nil] at hlength
        omega
    · by_cases hm : m < 16
      · have hlength := congrArg List.length h
        rw [Nat.toDigits_of_lt_base hm, toDigits_hex (Nat.le_of_not_lt hn), List.length_append] at hlength
        have hpos : 0 < (Nat.toDigits 16 (n / 16)).length := Nat.length_toDigits_pos
        simp only [List.length_cons, List.length_nil] at hlength
        omega
      · rw [toDigits_hex (Nat.le_of_not_lt hn), toDigits_hex (Nat.le_of_not_lt hm)] at h
        obtain ⟨hdiv, hmod⟩ := List.append_inj' h rfl
        have hdiv := ih (n / 16) (by omega) hdiv
        have hmod := digitChar_inj (Nat.mod_lt n (by decide)) (Nat.mod_lt m (by decide))
          (List.cons.inj hmod).1
        omega

theorem mem_toDigits_hex {n : Nat} {c : Char} (h : c ∈ Nat.toDigits 16 n) :
    ∃ d < 16, c = Nat.digitChar d := by
  induction n using Nat.strong_induction_on with
  | _ n ih =>
    by_cases hn : n < 16
    · rw [Nat.toDigits_of_lt_base hn] at h
      exact ⟨n, hn, List.mem_singleton.mp h⟩
    · rw [toDigits_hex (Nat.le_of_not_lt hn)] at h
      rcases List.mem_append.mp h with h | h
      · exact ih (n / 16) (by omega) h
      · exact ⟨n % 16, Nat.mod_lt n (by decide), List.mem_singleton.mp h⟩

/-- The characters of a number in hexadecimal are not those that end it. -/
theorem ne_brace_of_mem_toDigits {n : Nat} {c : Char} (h : c ∈ Nat.toDigits 16 n) :
    (c != '\x7d') = true := by
  obtain ⟨d, hd, rfl⟩ := mem_toDigits_hex h
  have hall : ∀ d < 16, (Nat.digitChar d != '\x7d') = true := by decide
  exact hall d hd

/-! ## Characters between quotes -/

/-- A character is written as itself, or as a backslash and what follows: one of a few letters, or the
code point. -/
inductive Escapes (c : Char) : List Char → Prop
  | plain : c ≠ '"' → c ≠ '\\' → Escapes c [c]
  | short {letter : Char} : (c, letter) ∈ [('"', '"'), ('\\', '\\'), ('\n', 'n'), ('\r', 'r'), ('\t', 't'),
      ('\x00', '0')] → Escapes c ['\\', letter]
  | codePoint : Escapes c (escapeCodePoint c)

theorem escapes_escape (c : Char) : Escapes c (escape c) := by
  unfold escape
  -- the short escapes, in order
  iterate 6
    split
    · rename_i h
      rw [beq_iff_eq.mp h]
      exact .short (by simp)
  split
  · rename_i hquote hbackslash _ _ _ _ _
    exact .plain (by simpa using hquote) (by simpa using hbackslash)
  · exact .codePoint

/-- No character is written as the beginning of how another one is. -/
theorem escape_unique {c c' : Char} {rest rest' : List Char}
    (h : escape c ++ rest = escape c' ++ rest') : c = c' ∧ rest = rest' := by
  have hc := escapes_escape c
  have hc' := escapes_escape c'
  generalize escape c = word at h hc
  generalize escape c' = word' at h hc'
  cases hc with
  | plain hquote hbackslash =>
    cases hc' with
    | plain =>
      obtain ⟨rfl, rfl⟩ := List.cons.inj h
      exact ⟨rfl, rfl⟩
    | short | codePoint => exact absurd (List.cons.inj h).1 hbackslash
  | @short letter hletter =>
    cases hc' with
    | plain _ hbackslash => exact absurd (List.cons.inj h).1.symm hbackslash
    | @short letter' hletter' =>
      obtain ⟨rfl, rfl⟩ := List.cons.inj (List.cons.inj h).2
      refine ⟨?_, rfl⟩
      simp only [List.mem_cons, Prod.mk.injEq, List.not_mem_nil, or_false] at hletter hletter'
      rcases hletter with h | h | h | h | h | h <;> rcases hletter' with h' | h' | h' | h' | h' | h' <;>
        first | exact h.1.trans h'.1.symm | exact absurd (h.2.symm.trans h'.2) (by decide)
    | codePoint =>
      have hu : letter = 'u' := (List.cons.inj (List.cons.inj h).2).1
      subst hu
      simp at hletter
  | codePoint =>
    cases hc' with
    | plain _ hbackslash => exact absurd (List.cons.inj h).1.symm hbackslash
    | @short letter hletter =>
      have hu : 'u' = letter := (List.cons.inj (List.cons.inj h).2).1
      subst hu
      simp at hletter
    | codePoint =>
      have hdigits : Nat.toDigits 16 c.toNat ++ '\x7d' :: rest =
          Nat.toDigits 16 c'.toNat ++ '\x7d' :: rest' := by
        simpa [escapeCodePoint] using h
      obtain ⟨hdigits, hrest⟩ := append_unique (fun c => ne_brace_of_mem_toDigits)
        (fun c => ne_brace_of_mem_toDigits) (by simp) (by simp) hdigits
      exact ⟨Char.toNat_inj.mp (toDigits_hex_inj hdigits), (List.cons.inj hrest).2⟩

/-- No character is written with a quote at the beginning. -/
theorem escape_ne_quote {c : Char} {rest rest' : List Char} : escape c ++ rest ≠ '"' :: rest' := by
  intro h
  have hc := escapes_escape c
  generalize escape c = word at h hc
  cases hc with
  | plain hquote => exact hquote (List.cons.inj h).1
  | short | codePoint => exact absurd (List.cons.inj h).1 (by decide)

/-- **Quoted texts can be read back.** -/
theorem quote_unique {text text' : String} {rest rest' : List Char}
    (h : (quote text).toList ++ rest = (quote text').toList ++ rest') : text = text' ∧ rest = rest' := by
  have hchars : ∀ chars chars' : List Char,
      chars.flatMap escape ++ '"' :: rest = chars'.flatMap escape ++ '"' :: rest' →
      chars = chars' ∧ rest = rest' := by
    intro chars
    induction chars with
    | nil =>
      intro chars' h
      cases chars' with
      | nil => exact ⟨rfl, (List.cons.inj h).2⟩
      | cons c chars' =>
        rw [List.flatMap_cons, List.append_assoc] at h
        exact absurd h.symm escape_ne_quote
    | cons c chars ih =>
      intro chars' h
      cases chars' with
      | nil =>
        rw [List.flatMap_cons, List.append_assoc] at h
        exact absurd h escape_ne_quote
      | cons c' chars' =>
        rw [List.flatMap_cons, List.flatMap_cons, List.append_assoc, List.append_assoc] at h
        obtain ⟨rfl, htail⟩ := escape_unique h
        obtain ⟨rfl, hrest⟩ := ih chars' htail
        exact ⟨rfl, hrest⟩
  have hquoted : text.toList.flatMap escape ++ '"' :: rest = text'.toList.flatMap escape ++ '"' :: rest' := by
    simpa [quote] using h
  obtain ⟨heq, hrest⟩ := hchars _ _ hquoted
  exact ⟨String.toList_inj.mp heq, hrest⟩

end Text

end SlotScript
