import SlotScript.Proofs.Token.Tiling

/-!
# String literals

Between quotes, a backslash, the quote and a line feed have to be written with a backslash; a tab, a
carriage return, the character zero and the other quote may be. `Token.Escaped` says that the inside of
a literal writes a text in such a way.

**Theorem (`Token.scan_literal`).** In either kind of quotes every text can be written, and however it is
written, scanning the literal gives back the text, as one token that takes up the whole source.

Where a backslash and the character after it start is settled twice, by the rule for where a literal ends
and by the reading of its inside. Both go over the inside one character of the text at a time.
-/

namespace SlotScript.Token

/-- The characters that can be written as a backslash and a letter, with the letter. -/
def escapes : List (Char × Char) :=
  [('\\', '\\'), ('"', '"'), ('\x27', '\x27'), ('\n', 'n'), ('\t', 't'), ('\r', 'r'), ('\x00', '0')]

/-- The text is written as the inside of a string literal between these quotes. -/
inductive Escaped (quote : Char) : List Char → List Char → Prop
  | nil : Escaped quote [] []
  | plain {c : Char} {text inside : List Char} (hbackslash : c ≠ '\\') (hquote : c ≠ quote)
    (hline : c ≠ '\n') : Escaped quote text inside → Escaped quote (c :: text) (c :: inside)
  | escape {c letter : Char} {text inside : List Char} (hletter : (c, letter) ∈ escapes) :
    Escaped quote text inside → Escaped quote (c :: text) ('\\' :: letter :: inside)

variable {quote : Char} {text inside : List Char}

/-- Every text can be written. -/
theorem exists_escaped (hquote : quote = '"' ∨ quote = '\x27') (text : List Char) :
    ∃ inside, Escaped quote text inside := by
  induction text with
  | nil => exact ⟨[], .nil⟩
  | cons c text ih =>
    obtain ⟨inside, hinside⟩ := ih
    by_cases hspecial : c = '\\' ∨ c = quote ∨ c = '\n'
    · obtain ⟨letter, hletter⟩ : ∃ letter, (c, letter) ∈ escapes := by
        rcases hspecial with rfl | rfl | rfl
        · exact ⟨'\\', by decide⟩
        · rcases hquote with rfl | rfl
          · exact ⟨'"', by decide⟩
          · exact ⟨'\x27', by decide⟩
        · exact ⟨'n', by decide⟩
      exact ⟨'\\' :: letter :: inside, .escape hletter hinside⟩
    · obtain ⟨hbackslash, hother, hline⟩ : c ≠ '\\' ∧ c ≠ quote ∧ c ≠ '\n' := by
        simpa [not_or] using hspecial
      exact ⟨c :: inside, .plain hbackslash hother hline hinside⟩

/-- The literal ends with the quote after its inside. -/
theorem Escaped.stringLength (h : Escaped quote text inside) (hquote : quote ≠ '\\') :
    Lexeme.stringLength quote (inside ++ [quote]) = (inside.length + 1, true) := by
  induction h with
  | nil =>
    rw [List.nil_append, Lexeme.stringLength_cons hquote, if_pos (by simp)]
    rfl
  | plain hbackslash hother hline _ ih =>
    rw [List.cons_append, Lexeme.stringLength_cons hbackslash, if_neg (by simpa using hother),
      if_neg (by simpa using hline), ih]
    rfl
  | @escape c letter text inside hletter _ ih =>
    have hline : ∀ entry ∈ escapes, entry.2 ≠ '\n' := by decide
    rw [List.cons_append, List.cons_append, Lexeme.stringLength_escape,
      if_neg (by simpa using hline _ hletter), ih]
    rfl

/-- The inside is read as the text. -/
theorem Escaped.unescape (h : Escaped quote text inside) (offset : Nat) :
    Token.unescape offset inside = .ok text := by
  induction h generalizing offset with
  | nil => rfl
  | plain hbackslash _ _ _ ih =>
    rw [Token.unescape]
    · rw [ih]
      rfl
    · rintro rfl
      exact absurd rfl hbackslash
    · rintro d rest rfl
      exact absurd rfl hbackslash
  | @escape c letter text inside hletter _ ih =>
    have hread : ∀ entry ∈ escapes, unescapeChar? entry.2 = some entry.1 := by decide
    rw [Token.unescape, hread _ hletter]
    show (Token.unescape _ inside).map (c :: ·) = _
    rw [ih]
    rfl

/-- The literal is the spelling of a token with the text. -/
theorem Escaped.spelled (h : Escaped quote text inside) (hquote : quote = '"' ∨ quote = '\x27') :
    (TokenKind.literal (String.ofList text)).Spelled (quote :: (inside ++ [quote])) := by
  have hbackslash : quote ≠ '\\' := by
    rcases hquote with rfl | rfl
    · decide
    · decide
  refine ⟨.string, quote, inside ++ [quote], rfl, .string hquote ?_, fun span => ?_⟩
  · rw [h.stringLength hbackslash, List.length_append]
    rfl
  · have hinside : (quote :: (inside ++ [quote])).tail.dropLast = inside := by simp
    rw [ofLexeme, hinside, h.unescape]
    rfl

/-- **Every text has a literal that is scanned to it.** -/
theorem scan_literal (hquote : quote = '"' ∨ quote = '\x27') (text : String) :
    (∃ inside, Escaped quote text.toList inside) ∧
      ∀ inside, Escaped quote text.toList inside →
        scan (String.ofList (quote :: (inside ++ [quote]))) =
          .ok [⟨.literal text, ⟨0, byteSize (quote :: (inside ++ [quote]))⟩⟩,
            ⟨.eof, ⟨byteSize (quote :: (inside ++ [quote])),
              byteSize (quote :: (inside ++ [quote]))⟩⟩] := by
  refine ⟨exists_escaped hquote text.toList, fun inside hinside => ?_⟩
  have hspelled := hinside.spelled hquote
  rw [String.ofList_toList] at hspelled
  exact scan_spelled hspelled

/-- A text of a letter of two bytes, a backslash, both quotes, a line feed and two tabs, between single
quotes; the double quote and the second tab are written as they are. -/
theorem scan_literal_quotes :
    Escaped '\x27' "é\\\x27\"\n\t\t".toList "é\\\\\\\x27\"\\n\\t\t".toList ∧
      scan "\x27é\\\\\\\x27\"\\n\\t\t\x27" =
        .ok [⟨.literal "é\\\x27\"\n\t\t", ⟨0, 14⟩⟩, ⟨.eof, ⟨14, 14⟩⟩] := by
  have hescaped : Escaped '\x27' "é\\\x27\"\n\t\t".toList "é\\\\\\\x27\"\\n\\t\t".toList :=
    .plain (by decide) (by decide) (by decide) (.escape (by decide) (.escape (by decide)
      (.plain (by decide) (by decide) (by decide) (.escape (by decide) (.escape (by decide)
        (.plain (by decide) (by decide) (by decide) .nil))))))
  exact ⟨hescaped, (scan_literal (Or.inr rfl) "é\\\x27\"\n\t\t").2 _ hescaped⟩

end SlotScript.Token
