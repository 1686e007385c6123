import SlotScript.Token.Scan
import SlotScript.Proofs.Result

/-!
# Scanning tokens that were written with spaces between them

A list of tokens is written down by putting their texts one after the other, with spaces between
them. If every token is *lexical*, that is, if its text alone is read as that token wherever a
space or the end follows, then scanning gives back the tokens.
-/

namespace SlotScript

/-- The text is that of the tokens, with at least one space between any two of them. -/
inductive Spaced : List TokenKind → List Char → Prop
  | nil : Spaced [] []
  | space {kinds chars} : Spaced kinds chars → Spaced kinds (' ' :: chars)
  | token {kind kinds chars} : Spaced kinds chars → (∀ c ∈ chars.head?, c = ' ') →
    Spaced (kind :: kinds) (kind.describe.toList ++ chars)

/-- One space between any two tokens is enough. -/
theorem spaced_intercalate (kinds : List TokenKind) :
    Spaced kinds ([' '].intercalate (kinds.map (·.describe.toList))) := by
  induction kinds with
  | nil => exact .nil
  | cons kind rest ih =>
    cases rest with
    | nil =>
      have h : Spaced [kind] (kind.describe.toList ++ []) := .token .nil (by simp)
      simpa using h
    | cons second rest => exact .token (.space ih) (by simp)

/-- The token's text is read as the token, if a space or nothing follows. -/
def TokenKind.Lexical (kind : TokenKind) : Prop :=
  ∃ c text, kind.describe.toList = c :: text ∧ Lexeme.isSpace c = false ∧
    ∀ rest : List Char, (∀ d ∈ rest.head?, d = ' ') →
      ∃ lexeme, Lexeme.munch c (text ++ rest) = (lexeme, text.length) ∧
        ∀ span, Token.ofLexeme lexeme (c :: text) span = .ok (some kind)

namespace Token

/-! ## Pieces of a text -/

theorem scanFrom_skip (offset skip : Nat) (chars : List Char) :
    scanFrom offset skip chars = scanFrom offset 0 (chars.drop skip) := by
  induction skip generalizing chars with
  | zero => rfl
  | succ skip ih =>
    cases chars with
    | nil => rfl
    | cons c rest => exact ih rest

theorem drop_length_takeWhile (p : Char → Bool) (chars : List Char) :
    chars.drop (chars.takeWhile p).length = chars.dropWhile p := by
  calc chars.drop (chars.takeWhile p).length
      = (chars.takeWhile p ++ chars.dropWhile p).drop (chars.takeWhile p).length := by
        rw [List.takeWhile_append_dropWhile]
    _ = chars.dropWhile p := List.drop_left

/-- Spaces are passed over. -/
theorem scanFrom_dropWhile (offset : Nat) (chars : List Char) :
    ∃ offset', scanFrom offset 0 chars =
      scanFrom offset' 0 (chars.dropWhile Lexeme.isSpace) := by
  cases chars with
  | nil => exact ⟨offset, rfl⟩
  | cons c rest =>
    cases hspace : Lexeme.isSpace c with
    | false => exact ⟨offset, by rw [List.dropWhile_cons_of_neg (by simp [hspace])]⟩
    | true =>
      refine ⟨offset + byteSize (c :: rest.take (rest.takeWhile Lexeme.isSpace).length), ?_⟩
      have hmunch : Lexeme.munch c rest = (.blank, (rest.takeWhile Lexeme.isSpace).length) := by
        simp [Lexeme.munch, hspace]
      rw [List.dropWhile_cons_of_pos hspace]
      simp only [scanFrom, hmunch, ofLexeme, ok_bind]
      rw [scanFrom_skip, drop_length_takeWhile]

/-- A token's text is read as the token. -/
theorem scanFrom_token {kind : TokenKind} (hkind : kind.Lexical) (offset : Nat)
    {rest : List Char} (hrest : ∀ c ∈ rest.head?, c = ' ') :
    ∃ span, scanFrom offset 0 (kind.describe.toList ++ rest) =
      (scanFrom span.stop 0 rest).map (⟨kind, span⟩ :: ·) := by
  obtain ⟨c, text, htext, -, hmunch⟩ := hkind
  obtain ⟨lexeme, hlexeme, htoken⟩ := hmunch rest hrest
  refine ⟨⟨offset, offset + byteSize (c :: text)⟩, ?_⟩
  rw [htext, List.cons_append]
  simp only [scanFrom, hlexeme, List.take_left, htoken, ok_bind]
  rw [scanFrom_skip, List.drop_left]
  cases scanFrom (offset + byteSize (c :: text)) 0 rest <;> rfl

/-- **Scanning gives back what was written with spaces.** -/
theorem scanFrom_spaced {kinds : List TokenKind} {chars : List Char} (h : Spaced kinds chars)
    (hkinds : ∀ kind ∈ kinds, kind.Lexical) (offset : Nat) :
    ∃ tokens, scanFrom offset 0 chars = .ok tokens ∧ tokens.map (·.kind) = kinds ++ [.eof] := by
  -- A space takes all those after it along, so the statement is proved for what they leave.
  suffices hleft : ∀ offset, ∃ tokens, scanFrom offset 0 (chars.dropWhile Lexeme.isSpace) =
      .ok tokens ∧ tokens.map (·.kind) = kinds ++ [.eof] by
    obtain ⟨offset', hscan⟩ := scanFrom_dropWhile offset chars
    rw [hscan]
    exact hleft offset'
  induction h with
  | nil =>
    intro offset
    exact ⟨[⟨.eof, ⟨offset, offset⟩⟩], rfl, rfl⟩
  | space _ ih => exact ih hkinds
  | @token kind kinds chars _ hhead ih =>
    intro offset
    have hlexical : kind.Lexical := hkinds kind (by simp)
    have hself : (kind.describe.toList ++ chars).dropWhile Lexeme.isSpace =
        kind.describe.toList ++ chars := by
      obtain ⟨c, text, htext, hspace, -⟩ := hlexical
      rw [htext, List.cons_append, List.dropWhile_cons_of_neg (by simp [hspace])]
    obtain ⟨span, hscan⟩ := scanFrom_token hlexical offset hhead
    obtain ⟨offset', hblank⟩ := scanFrom_dropWhile span.stop chars
    obtain ⟨tokens, htokens, hmap⟩ := ih (fun k hk => hkinds k (by simp [hk])) offset'
    refine ⟨⟨kind, span⟩ :: tokens, ?_, by simp [hmap]⟩
    rw [hself, hscan, hblank, htokens]
    rfl

end Token

/-! ## Numbers and marks -/

namespace TokenKind

/-- No text is read as the end. -/
theorem Lexical.ne_eof {kind : TokenKind} (h : kind.Lexical) : kind ≠ .eof := by
  rintro rfl
  obtain ⟨c, text, -, -, hmunch⟩ := h
  obtain ⟨lexeme, -, htoken⟩ := hmunch [] (by simp)
  have heof := htoken ⟨0, 0⟩
  cases lexeme with
  | integer =>
    simp only [Token.ofLexeme] at heof
    split at heof <;> cases heof
  | string =>
    simp only [Token.ofLexeme, Except.map] at heof
    split at heof <;> cases heof
  | _ => cases heof

theorem digitsValue_toDigits (n : Nat) : Token.digitsValue (Nat.toDigits 10 n) = n := by
  have hdigits : (Nat.toDigits 10 n).filter Char.isDigit = Nat.toDigits 10 n :=
    List.filter_eq_self.mpr fun c hc => Nat.isDigit_of_mem_toDigits (by decide) (by decide) hc
  rw [Token.digitsValue, hdigits]
  exact Nat.ofDigitChars_ten_toDigits

/-- A number is scanned as such. -/
theorem lexical_int {n : Nat} (h : n ≤ Token.maxInteger) : (int (Int64.ofNat n)).Lexical := by
  have hint : (Int64.ofNat n).toInt = n := by
    refine Int64.toInt_ofNat_of_lt ?_
    simp only [Token.maxInteger] at h
    omega
  have htext : (int (Int64.ofNat n)).describe.toList = Nat.toDigits 10 n := by
    rw [describe, hint]
    exact Nat.toList_repr
  have hdigit : ∀ c ∈ Nat.toDigits 10 n, c.isDigit = true := fun c hc =>
    Nat.isDigit_of_mem_toDigits (by decide) (by decide) hc
  obtain ⟨c, text, hcons⟩ := List.exists_cons_of_ne_nil (Nat.toDigits_ne_nil (n := n) (b := 10))
  have hc : c.isDigit = true := hdigit c (by simp [hcons])
  have hrest : ∀ d ∈ text, d.isDigit = true := fun d hd => hdigit d (by simp [hcons, hd])
  have hne : ∀ d : Char, d.isDigit = false → c ≠ d := by
    rintro d hd rfl
    rw [hc] at hd
    cases hd
  have hspace : Lexeme.isSpace c = false := by
    simp [Lexeme.isSpace, hne]
  refine ⟨c, text, htext.trans hcons, hspace, fun rest hhead => ⟨.integer, ?_, fun span => ?_⟩⟩
  · have hcount : Lexeme.digitCount (text ++ rest) = text.length := by
      rw [Lexeme.digitCount, List.takeWhile_append_of_pos hrest]
      cases rest with
      | nil => simp
      | cons d rest =>
        obtain rfl : d = ' ' := hhead d rfl
        simp
    have hfraction : Lexeme.fractionLength rest = none := by
      cases rest with
      | nil => rfl
      | cons d rest =>
        obtain rfl : d = ' ' := hhead d rfl
        rfl
    simp [Lexeme.munch, hspace, hne, hc, hcount, hfraction]
  · simp [Token.ofLexeme, ← hcons, digitsValue_toDigits, h]

/-- A mark of one character that starts no comment and no number is scanned as such. -/
theorem lexical_mark (mark : Char) (h : mark ∈ ['(', ')', '+', '-', '*', '/', '%']) :
    (word (String.singleton mark)).Lexical := by
  simp only [List.mem_cons, List.not_mem_nil, or_false] at h
  refine ⟨mark, [], by simp [describe], ?_, fun rest hhead => ⟨.symbol, ?_, fun span => ?_⟩⟩
  · rcases h with rfl | rfl | rfl | rfl | rfl | rfl | rfl <;> rfl
  · cases rest with
    | nil => rcases h with rfl | rfl | rfl | rfl | rfl | rfl | rfl <;> rfl
    | cons d rest =>
      obtain rfl : d = ' ' := hhead d rfl
      rcases h with rfl | rfl | rfl | rfl | rfl | rfl | rfl <;> rfl
  · simp [Token.ofLexeme]

end TokenKind

end SlotScript
