import SlotScript.Token.Scan
import SlotScript.Proofs.Result

/-!
# Where tokens stand

A span is *within* a source text if it starts and ends where a character starts or ends, in this
order. The scanner cuts the text into pieces and gives every token the span of its piece, so that is
what the spans of tokens are. The spans of errors are cut out of a piece: the first two characters of
a comment, or an escape inside a string literal.

**Theorem (`Token.scan_within`).** All spans that the scanner gives are within the source.
-/

namespace SlotScript

/-- The span lies in the text, and both of its ends are between characters. -/
structure Span.Within (source : List Char) (s : Span) : Prop where
  ordered : s.start ≤ s.stop
  bounded : s.stop ≤ byteSize source
  start : (leading s.start source).isSome = true
  stop : (leading s.stop source).isSome = true

/-! ## Pieces of a text -/

@[simp] theorem byteSize_append (a b : List Char) :
    byteSize (a ++ b) = byteSize a + byteSize b := by
  induction a with
  | nil => simp [byteSize]
  | cons c rest ih =>
    rw [List.cons_append, byteSize, byteSize, ih]
    omega

theorem leading_append (before after : List Char) :
    leading (byteSize before) (before ++ after) = some before := by
  induction before with
  | nil => rw [byteSize, leading]
  | cons c rest ih =>
    have hpos : 0 < c.utf8Size := c.utf8Size_pos
    obtain ⟨size, hsize⟩ : ∃ size, byteSize (c :: rest) = size + 1 :=
      ⟨c.utf8Size + byteSize rest - 1, by rw [byteSize]; omega⟩
    have hle : c.utf8Size ≤ size + 1 := by
      rw [← hsize, byteSize]
      exact Nat.le_add_right _ _
    have hrest : size + 1 - c.utf8Size = byteSize rest := by
      rw [← hsize, byteSize]
      exact Nat.add_sub_cancel_left _ _
    rw [hsize, List.cons_append, leading, if_pos hle, hrest, ih]
    · rfl
    · simp

/-- The span of a piece of a text is within the text. -/
theorem Span.within_piece (before piece after : List Char) :
    Span.Within (before ++ (piece ++ after))
      ⟨byteSize before, byteSize before + byteSize piece⟩ where
  ordered := Nat.le_add_right _ _
  bounded := by
    simp only [byteSize_append]
    omega
  start := by rw [leading_append, Option.isSome_some]
  stop := by rw [← byteSize_append, ← List.append_assoc, leading_append, Option.isSome_some]

theorem Span.within_take (before text : List Char) (length : Nat) :
    Span.Within (before ++ text)
      ⟨byteSize before, byteSize before + byteSize (text.take length)⟩ := by
  have hpiece := Span.within_piece before (text.take length) (text.drop length)
  rwa [List.take_append_drop] at hpiece

namespace Token

/-! ## Errors inside a piece -/

/-- An escape is a piece of the literal that it stands in. -/
theorem unescape_within {offset : Nat} {before inside : List Char} {e : ScanError}
    (hoffset : offset = byteSize before) (h : unescape offset inside = .error e)
    (after : List Char) :
    e.span.Within (before ++ (inside ++ after)) := by
  have hbackslash : '\\'.utf8Size = 1 := rfl
  fun_induction unescape offset inside generalizing before with
  | case1 => cases h
  | case2 => cases h
  | case3 offset c rest hnone =>
    cases h
    have hpiece := Span.within_piece before ['\\', c] (rest ++ after)
    subst hoffset
    simpa [byteSize, hbackslash, Nat.add_assoc] using hpiece
  | case4 offset c rest d hsome ih =>
    have hbefore : offset + 1 + c.utf8Size = byteSize (before ++ ['\\', c]) := by
      simp [byteSize, hbackslash, hoffset, Nat.add_assoc]
    simpa using ih hbefore (map_eq_error_iff.1 h)
  | case5 offset c rest hlast hescape ih =>
    have hbefore : offset + c.utf8Size = byteSize (before ++ [c]) := by
      simp [byteSize, hoffset]
    simpa using ih hbefore (map_eq_error_iff.1 h)

/-- A comment without its end starts with the two characters that open it. -/
theorem munch_openComment {c : Char} {rest : List Char} {length : Nat}
    (h : Lexeme.munch c rest = (.openComment, length)) : c = '/' ∧ rest.head? = some '*' := by
  unfold Lexeme.munch at h
  grind

/-- A string literal starts with a quote. -/
theorem munch_string {c : Char} {rest : List Char} {length : Nat}
    (h : Lexeme.munch c rest = (.string, length)) : c = '"' ∨ c = '\x27' := by
  unfold Lexeme.munch at h
  grind

/-- The inside of a piece, without its first and its last character, is what it starts with. -/
theorem dropLast_take_prefix (length : Nat) (rest : List Char) :
    (rest.take length).dropLast <+: rest :=
  (List.dropLast_prefix _).trans (List.take_prefix _ _)

/-- What is wrong with a piece is in the piece. -/
theorem ofLexeme_within {before rest : List Char} {c : Char} {lexeme : Lexeme} {length : Nat}
    {e : ScanError} (hmunch : Lexeme.munch c rest = (lexeme, length))
    (h : ofLexeme lexeme (c :: rest.take length)
      ⟨byteSize before, byteSize before + byteSize (c :: rest.take length)⟩ = .error e) :
    e.span.Within (before ++ c :: rest) := by
  have hpiece : Span.Within (before ++ c :: rest)
      ⟨byteSize before, byteSize before + byteSize (c :: rest.take length)⟩ :=
    Span.within_take before (c :: rest) (length + 1)
  cases lexeme with
  | openComment =>
    cases h
    obtain ⟨rfl, hhead⟩ := munch_openComment hmunch
    obtain ⟨inside, rfl⟩ := List.head?_eq_some_iff.1 hhead
    exact Span.within_piece before ['/', '*'] inside
  | integer =>
    simp only [ofLexeme] at h
    split at h
    · cases h
    · cases h
      exact hpiece
  | string =>
    have hquote : c.utf8Size = 1 := by
      rcases munch_string hmunch with rfl | rfl
      · rfl
      · rfl
    obtain ⟨after, hafter⟩ := dropLast_take_prefix length rest
    have hoffset : byteSize before + 1 = byteSize (before ++ [c]) := by
      simp [byteSize, hquote]
    have hinside := unescape_within hoffset (map_eq_error_iff.1 h) after
    simpa [hafter] using hinside
  | openString | unknown =>
    cases h
    exact hpiece
  | _ => cases h

/-! ## The whole text -/

section Scan

variable {offset length : Nat} {c : Char} {rest : List Char} {lexeme : Lexeme} {span : Span}
  (hmunch : Lexeme.munch c rest = (lexeme, length))
  (hspan : span = ⟨offset, offset + byteSize (c :: rest.take length)⟩)

include hmunch hspan

theorem scanFrom_error {e : ScanError}
    (h : ofLexeme lexeme (c :: rest.take length) span = .error e) :
    scanFrom offset 0 (c :: rest) = .error e := by
  subst hspan
  simp only [scanFrom, hmunch, h]
  rfl

theorem scanFrom_none (h : ofLexeme lexeme (c :: rest.take length) span = .ok none) :
    scanFrom offset 0 (c :: rest) = scanFrom span.stop length rest := by
  subst hspan
  simp only [scanFrom, hmunch, h, ok_bind]

theorem scanFrom_some {kind : TokenKind}
    (h : ofLexeme lexeme (c :: rest.take length) span = .ok (some kind)) :
    scanFrom offset 0 (c :: rest) =
      (scanFrom span.stop length rest).map (⟨kind, span⟩ :: ·) := by
  subst hspan
  simp only [scanFrom, hmunch, h, ok_bind]
  rfl

end Scan

/-- The spans in what the scanner gives are within the text. -/
def Located (source : List Char) : Except ScanError (List Token) → Prop
  | .ok tokens => ∀ token ∈ tokens, token.span.Within source
  | .error e => e.span.Within source

theorem scanFrom_within (before text : List Char) (skip : Nat) :
    Located (before ++ text) (scanFrom (byteSize before + byteSize (text.take skip)) skip text) := by
  induction text generalizing before skip with
  | nil =>
    have hend := Span.within_piece before [] []
    cases skip <;> simpa [scanFrom, Located, byteSize] using hend
  | cons c rest ih =>
    cases skip with
    | succ skip =>
      have hrest := ih (before ++ [c]) skip
      simpa [scanFrom, byteSize, Nat.add_assoc] using hrest
    | zero =>
      rcases hmunch : Lexeme.munch c rest with ⟨lexeme, length⟩
      let span : Span := ⟨byteSize before, byteSize before + byteSize (c :: rest.take length)⟩
      have hspan : span.Within (before ++ c :: rest) :=
        Span.within_take before (c :: rest) (length + 1)
      have hrest : Located (before ++ c :: rest) (scanFrom span.stop length rest) := by
        simpa [span, byteSize, Nat.add_assoc] using ih (before ++ [c]) length
      rw [List.take_zero, byteSize, Nat.add_zero]
      cases hkind : ofLexeme lexeme (c :: rest.take length) span with
      | error e =>
        rw [scanFrom_error hmunch rfl hkind]
        exact ofLexeme_within hmunch hkind
      | ok kind =>
        cases kind with
        | none =>
          rw [scanFrom_none hmunch rfl hkind]
          exact hrest
        | some kind =>
          rw [scanFrom_some hmunch rfl hkind]
          cases htail : scanFrom span.stop length rest with
          | error e =>
            rw [htail] at hrest
            exact hrest
          | ok tokens =>
            rw [htail] at hrest
            exact List.forall_mem_cons.2 ⟨hspan, hrest⟩

/-- **All spans that the scanner gives are within the source.** -/
theorem scan_within (source : String) : Located source.toList (scan source) :=
  scanFrom_within [] source.toList 0

end Token

end SlotScript
