import Mathlib
import SlotScript.Proofs.Token.Spaced
import SlotScript.Proofs.Token.Within

/-!
# Layout

The text of a token is read as that token wherever nothing follows or a space does, whatever stands
behind the space (`Lexeme.Spells.munch`). So the characters between tokens can be replaced by others that only
separate tokens: spaces, and comments with their ends.

**Theorem (`scan_layout`).** The texts of the tokens of a source, laid out otherwise, are scanned to
the same kinds of tokens.
-/

namespace SlotScript

namespace Lexeme

/-- Whether the piece is a token, if it can be read. -/
def isToken : Lexeme → Bool
  | separator | integer | decimal | string | name | symbol => true
  | blank | comment | openComment | openString | unknown => false

/-- What follows a token in another layout: nothing, or a space first. -/
def Apart (rest : List Char) : Prop := ∀ d ∈ rest.head?, isSpace d = true

variable {rest : List Char}

theorem isSpace_cases {c : Char} (h : isSpace c = true) :
    c = ' ' ∨ c = '\t' ∨ c = '\r' ∨ c = '\n' ∨ c = '\x0c' := by
  simpa [isSpace, or_assoc] using h

/-- A character that is no space. -/
theorem ne_of_isSpace {c d : Char} (hc : isSpace c = true) (hd : isSpace d = false) : c ≠ d := by
  rintro rfl
  rw [hc] at hd
  cases hd

/-- Characters of a class go on up to where a text is apart. -/
theorem takeWhile_apart {p : Char → Bool} (hp : ∀ c, isSpace c = true → p c = false)
    {text : List Char} (htext : ∀ c ∈ text, p c = true) (hrest : Apart rest) :
    (text ++ rest).takeWhile p = text := by
  rw [List.takeWhile_append_of_pos htext]
  cases rest with
  | nil => simp
  | cons d rest => simp [hp d (hrest d rfl)]

theorem eq_takeWhile_of_length {p : Char → Bool} {text : List Char}
    (h : ((text ++ rest).takeWhile p).length = text.length) : (text ++ rest).takeWhile p = text :=
  (List.prefix_of_prefix_length_le (List.takeWhile_prefix p) (List.prefix_append text rest)
    (Nat.le_of_eq h)).eq_of_length h

theorem isDigit_of_isSpace {c : Char} (h : isSpace c = true) : c.isDigit = false := by
  rcases isSpace_cases h with rfl | rfl | rfl | rfl | rfl <;> rfl

theorem continuesName_of_isSpace {c : Char} (h : isSpace c = true) : continuesName c = false := by
  rcases isSpace_cases h with rfl | rfl | rfl | rfl | rfl <;> rfl

theorem digitCount_apart {text : List Char} (htext : ∀ c ∈ text, c.isDigit = true)
    (hrest : Apart rest) : digitCount (text ++ rest) = text.length := by
  rw [digitCount, takeWhile_apart (fun _ => isDigit_of_isSpace) htext hrest]

theorem fractionLength_apart (hrest : Apart rest) : fractionLength rest = none := by
  unfold fractionLength
  split
  · exact absurd rfl (ne_of_isSpace (hrest '.' rfl) (by rfl))
  · rfl

/-- A fraction is a point and at least one digit. -/
theorem fractionLength_eq_some {text : List Char} {length : Nat} (h : fractionLength text = some length) :
    ∃ digits rest, text = '.' :: (digits ++ rest) ∧ (∀ c ∈ digits, c.isDigit = true) ∧ digits ≠ [] ∧
      length = digits.length + 1 := by
  unfold fractionLength at h
  split at h
  · rename_i rest
    split at h
    · cases h
    · rename_i hcount
      obtain rfl := Option.some.inj h
      exact ⟨rest.takeWhile Char.isDigit, rest.dropWhile Char.isDigit,
        by rw [List.takeWhile_append_dropWhile], List.all_eq_true.mp List.all_takeWhile,
        fun hnil => hcount (by rw [digitCount, hnil]; rfl), rfl⟩
  · cases h

theorem fractionLength_digits {digits : List Char} (hdigits : ∀ c ∈ digits, c.isDigit = true)
    (hne : digits ≠ []) (hrest : Apart rest) :
    fractionLength ('.' :: (digits ++ rest)) = some (digits.length + 1) := by
  rw [fractionLength, digitCount_apart hdigits hrest, if_neg (by simpa using hne)]

theorem stringLength_escape (quote c : Char) (rest : List Char) :
    stringLength quote ('\\' :: c :: rest) =
      if c == '\n' then (0, false)
      else ((stringLength quote rest).1 + 2, (stringLength quote rest).2) := by
  rw [stringLength]

theorem stringLength_cons {quote c : Char} (hc : c ≠ '\\') (rest : List Char) :
    stringLength quote (c :: rest) =
      if c == quote then (1, true)
      else if c == '\n' then (0, false)
      else ((stringLength quote rest).1 + 1, (stringLength quote rest).2) := by
  rw [stringLength]
  · rintro rfl
    exact absurd rfl hc
  · rintro d tail rfl
    exact absurd rfl hc

/-- A string literal with its closing quote has at least that. -/
theorem stringLength_pos {quote : Char} {text : List Char} {length : Nat}
    (h : stringLength quote text = (length, true)) : 0 < length := by
  rcases text with _ | ⟨c, rest⟩
  · cases h
  by_cases hc : c = '\\'
  · subst hc
    rcases rest with _ | ⟨d, rest⟩
    · cases h
    · rw [stringLength_escape] at h
      split at h
      · cases h
      · rw [← (Prod.mk.inj h).1]
        exact Nat.succ_pos _
  · rw [stringLength_cons hc] at h
    split at h
    · rw [← (Prod.mk.inj h).1]
      exact Nat.one_pos
    · split at h
      · cases h
      · rw [← (Prod.mk.inj h).1]
        exact Nat.succ_pos _

/-- A string literal ends with its quote, whatever follows. -/
theorem stringLength_append {quote : Char} (rest rest' : List Char) : ∀ text : List Char,
    stringLength quote (text ++ rest) = (text.length, true) →
      stringLength quote (text ++ rest') = (text.length, true)
  | [], h => absurd (stringLength_pos h) (Nat.lt_irrefl 0)
  | c :: text, h => by
    by_cases hc : c = '\\'
    · subst hc
      rcases text with _ | ⟨d, text⟩
      · rcases rest with _ | ⟨d, rest⟩
        · cases h
        · rw [List.singleton_append, stringLength_escape] at h
          split at h
          · cases h
          · cases (Prod.mk.inj h).1
      · rw [List.cons_append, List.cons_append, stringLength_escape] at h ⊢
        split at h
        · cases h
        · rename_i hd
          obtain ⟨hlength, hclosed⟩ := Prod.mk.inj h
          have hinner := stringLength_append rest rest' text
            (Prod.ext (Nat.add_right_cancel hlength) hclosed)
          rw [if_neg hd, hinner]
          rfl
    · rw [List.cons_append, stringLength_cons hc] at h ⊢
      split at h
      · rename_i hquote
        rw [if_pos hquote]
        exact h
      · rename_i hquote
        split at h
        · cases h
        · rename_i hline
          obtain ⟨hlength, hclosed⟩ := Prod.mk.inj h
          have hinner := stringLength_append rest rest' text
            (Prod.ext (Nat.add_right_cancel hlength) hclosed)
          rw [if_neg hquote, if_neg hline, hinner]
          rfl

/-- What the text of a token is spelled like: its first character and the others. -/
inductive Spells : Lexeme → Char → List Char → Prop
  | separator : Spells .separator ';' []
  | integer {c : Char} {digits : List Char} (hc : c.isDigit = true)
      (hdigits : ∀ d ∈ digits, d.isDigit = true) : Spells .integer c digits
  | decimal {c : Char} {whole digits : List Char} (hc : c.isDigit = true)
      (hwhole : ∀ d ∈ whole, d.isDigit = true) (hdigits : ∀ d ∈ digits, d.isDigit = true)
      (hne : digits ≠ []) : Spells .decimal c (whole ++ '.' :: digits)
  | fraction {digits : List Char} (hdigits : ∀ d ∈ digits, d.isDigit = true) (hne : digits ≠ []) :
      Spells .decimal '.' digits
  | string {c : Char} {text : List Char} (hc : c = '"' ∨ c = '\x27')
      (htext : stringLength c text = (text.length, true)) : Spells .string c text
  | name {c : Char} {text : List Char} (hc : startsName c = true)
      (htext : ∀ d ∈ text, continuesName d = true) : Spells .name c text
  | symbol {mark : String} {c : Char} {text : List Char} (hmark : mark ∈ symbols)
      (htext : mark.toList = c :: text) : Spells .symbol c text

theorem commentLength_le {text : List Char} {length : Nat} (h : commentLength text = some length) :
    length ≤ text.length := by
  fun_induction commentLength text generalizing length with
  | case1 rest =>
    obtain rfl := Option.some.inj h
    simp
  | case2 c rest hend ih =>
    obtain ⟨inner, hinner, rfl⟩ := Option.map_eq_some_iff.mp h
    exact Nat.succ_le_succ (ih hinner)
  | case3 => cases h

theorem stringLength_le (quote : Char) (text : List Char) :
    (stringLength quote text).1 ≤ text.length := by
  fun_induction stringLength quote text <;> grind

theorem length_takeWhile_le (p : Char → Bool) (text : List Char) :
    (text.takeWhile p).length ≤ text.length :=
  (List.takeWhile_sublist p).length_le

/-- A piece does not reach beyond the text. -/
theorem munch_le (c : Char) (rest : List Char) : (munch c rest).2 ≤ rest.length := by
  unfold munch
  split
  · exact length_takeWhile_le _ rest
  split
  · exact length_takeWhile_le _ rest
  split
  · rename_i hopen
    split
    · rename_i length hlength
      have hne : rest ≠ [] := by
        rintro rfl
        simp at hopen
      have hle := commentLength_le hlength
      have hpos := List.length_pos_iff.mpr hne
      rw [List.length_tail] at hle
      exact Nat.add_le_of_le_sub hpos hle
    · exact Nat.le_refl _
  split
  · exact Nat.zero_le _
  split
  · have hcount : digitCount rest ≤ rest.length := length_takeWhile_le _ rest
    dsimp only
    split
    · rename_i length hlength
      obtain ⟨digits, after, hafter, -, -, rfl⟩ := fractionLength_eq_some hlength
      have hsize := congrArg List.length hafter
      rw [List.length_drop, List.length_cons, List.length_append] at hsize
      dsimp only
      omega
    · exact hcount
  split
  · have hle := stringLength_le c rest
    split
    · rename_i length hlength
      rwa [hlength] at hle
    · rename_i length hlength
      rwa [hlength] at hle
  split
  · exact length_takeWhile_le _ rest
  split
  · rename_i length hlength
    obtain ⟨digits, after, hafter, -, -, rfl⟩ := fractionLength_eq_some hlength
    obtain ⟨-, rfl⟩ := List.cons.inj hafter
    simp
  · split
    · rename_i mark hmark
      have hprefix : mark.toList.isPrefixOf (c :: rest) = true := by
        simpa using List.find?_some hmark
      have hle := (List.isPrefixOf_iff_prefix.mp hprefix).length_le
      rw [String.length_toList, List.length_cons] at hle
      exact Nat.sub_le_of_le_add hle
    · exact Nat.zero_le _

section Pieces

variable {c : Char} {text : List Char}

theorem spells_integer (hc : c.isDigit = true) (hsize : digitCount (text ++ rest) = text.length) :
    Spells .integer c text := by
  have hall : ∀ d ∈ (text ++ rest).takeWhile Char.isDigit, d.isDigit = true :=
    List.all_eq_true.mp List.all_takeWhile
  rw [eq_takeWhile_of_length hsize] at hall
  exact .integer hc hall

/-- Digits, a point and digits again. -/
theorem spells_decimal (hc : c.isDigit = true) {length : Nat}
    (hlength : fractionLength ((text ++ rest).drop (digitCount (text ++ rest))) = some length)
    (hsize : digitCount (text ++ rest) + length = text.length) : Spells .decimal c text := by
  have hall : ∀ d ∈ (text ++ rest).takeWhile Char.isDigit, d.isDigit = true :=
    List.all_eq_true.mp List.all_takeWhile
  have hdrop : (text ++ rest).drop (digitCount (text ++ rest)) =
      (text ++ rest).dropWhile Char.isDigit := Token.drop_length_takeWhile _ _
  obtain ⟨digits, after, hfraction, hdigits, hne, rfl⟩ := fractionLength_eq_some hlength
  have hwhole : text ++ rest = ((text ++ rest).takeWhile Char.isDigit ++ '.' :: digits) ++ after := by
    rw [List.append_assoc, List.cons_append, ← hfraction, hdrop, List.takeWhile_append_dropWhile]
  obtain ⟨htext, -⟩ := List.append_inj hwhole (by
    rw [List.length_append, List.length_cons, ← hsize]
    rfl)
  rw [htext]
  exact .decimal hc hall hdigits hne

/-- A point and digits. -/
theorem spells_fraction {length : Nat} (hlength : fractionLength (c :: (text ++ rest)) = some length)
    (hsize : length - 1 = text.length) : Spells .decimal c text := by
  obtain ⟨digits, after, hfraction, hdigits, hne, rfl⟩ := fractionLength_eq_some hlength
  obtain ⟨rfl, htail⟩ := List.cons.inj hfraction
  obtain ⟨rfl, -⟩ := List.append_inj htail hsize.symm
  exact .fraction hdigits hne

theorem spells_symbol {mark : String}
    (hmark : (symbols.find? fun mark => mark.toList.isPrefixOf (c :: (text ++ rest))) = some mark)
    (hsize : mark.length - 1 = text.length) : Spells .symbol c text := by
  have hprefix : mark.toList.isPrefixOf (c :: (text ++ rest)) = true := by
    simpa using List.find?_some hmark
  obtain ⟨after, hafter⟩ := List.isPrefixOf_iff_prefix.mp hprefix
  have hpos : ∀ mark ∈ symbols, 0 < mark.toList.length := by decide
  have hmem := List.mem_of_find?_eq_some hmark
  have hlength : mark.toList.length = (c :: text).length := by
    have hmarkPos := hpos mark hmem
    rw [String.length_toList] at hmarkPos ⊢
    rw [List.length_cons]
    omega
  obtain ⟨htext, -⟩ := List.append_inj (hafter.trans List.cons_append.symm) hlength
  exact .symbol hmem htext

end Pieces

/-- A piece that is a token is spelled like one. -/
theorem spells_of_munch {c : Char} {text rest : List Char} {lexeme : Lexeme}
    (h : munch c (text ++ rest) = (lexeme, text.length)) (htoken : lexeme.isToken = true) :
    lexeme.Spells c text := by
  unfold munch at h
  split at h
  · obtain ⟨rfl, -⟩ := Prod.mk.inj h
    cases htoken
  split at h
  · obtain ⟨rfl, -⟩ := Prod.mk.inj h
    cases htoken
  split at h
  · split at h
    · obtain ⟨rfl, -⟩ := Prod.mk.inj h
      cases htoken
    · obtain ⟨rfl, -⟩ := Prod.mk.inj h
      cases htoken
  split at h
  · rename_i hsemicolon
    obtain ⟨rfl, hlength⟩ := Prod.mk.inj h
    obtain rfl := List.length_eq_zero_iff.mp hlength.symm
    obtain rfl : c = ';' := by simpa using hsemicolon
    exact .separator
  split at h
  · rename_i hdigit
    dsimp only at h
    split at h
    · rename_i length hlength
      obtain ⟨rfl, hsize⟩ := Prod.mk.inj h
      exact spells_decimal hdigit hlength hsize
    · obtain ⟨rfl, hsize⟩ := Prod.mk.inj h
      exact spells_integer hdigit hsize
  split at h
  · rename_i hquote
    have hquote : c = '"' ∨ c = '\x27' := by simpa using hquote
    split at h
    · rename_i length hlength
      obtain ⟨rfl, rfl⟩ := Prod.mk.inj h
      have hclosed := stringLength_append rest [] text hlength
      rw [List.append_nil] at hclosed
      exact .string hquote hclosed
    · obtain ⟨rfl, -⟩ := Prod.mk.inj h
      cases htoken
  split at h
  · rename_i hname
    obtain ⟨rfl, hlength⟩ := Prod.mk.inj h
    refine .name hname ?_
    rw [← eq_takeWhile_of_length hlength]
    exact List.all_eq_true.mp List.all_takeWhile
  split at h
  · rename_i length hlength
    obtain ⟨rfl, hsize⟩ := Prod.mk.inj h
    exact spells_fraction hlength hsize
  · split at h
    · rename_i mark hmark
      obtain ⟨rfl, hsize⟩ := Prod.mk.inj h
      exact spells_symbol hmark hsize
    · obtain ⟨rfl, -⟩ := Prod.mk.inj h
      cases htoken

theorem isDigit_of_startsName {c : Char} (h : startsName c = true) : c.isDigit = false := by
  simp only [startsName, Char.isAlpha, Char.isUpper, Char.isLower, Bool.or_eq_true, Bool.and_eq_true,
    decide_eq_true_eq, beq_iff_eq] at h
  rw [Char.isDigit, Bool.and_eq_false_iff, decide_eq_false_iff_not, decide_eq_false_iff_not]
  rcases h with (h | h) | rfl
  · grind
  · grind
  · decide

/-- The first character of a mark starts nothing else. -/
theorem starts_of_mem_symbols {mark : String} (hmark : mark ∈ symbols) {c : Char}
    (hc : mark.toList.head? = some c) :
    isSpace c = false ∧ c ≠ ';' ∧ c.isDigit = false ∧ c ≠ '"' ∧ c ≠ '\x27' ∧ startsName c = false := by
  have hall : ∀ mark ∈ symbols, mark.toList.head?.all fun c =>
      !isSpace c && c != ';' && !c.isDigit && c != '"' && c != '\x27' && !startsName c := by decide
  have hfirst := hall mark hmark
  rw [hc] at hfirst
  simpa [and_assoc] using hfirst

/-- What has no space does not reach beyond where a text is apart. -/
theorem prefix_apart {text other : List Char} (hother : ∀ c ∈ other, isSpace c = false)
    (hrest : Apart rest) (h : other <+: text ++ rest) : other <+: text := by
  rcases List.prefix_or_prefix_of_prefix h (List.prefix_append text rest) with hshort | ⟨tail, rfl⟩
  · exact hshort
  · cases tail with
    | nil => simp
    | cons d tail =>
      obtain ⟨after, hafter⟩ := (List.prefix_append_right_inj text).mp h
      have hd : d ∈ rest.head? := by
        rw [← hafter]
        rfl
      exact absurd rfl (ne_of_isSpace (hrest d hd) (hother d (by simp)))

/-- The longest mark that a mark starts with is itself, also where something follows apart. -/
theorem find?_symbols {mark : String} (hmark : mark ∈ symbols) (hrest : Apart rest) :
    (symbols.find? fun other => other.toList.isPrefixOf (mark.toList ++ rest)) = some mark := by
  have hlongest : ∀ mark ∈ symbols,
      (symbols.find? fun other => other.toList.isPrefixOf mark.toList) = some mark := by decide
  have hall : ∀ mark ∈ symbols, mark.toList.all fun c => !isSpace c := by decide
  have hspaces : ∀ mark ∈ symbols, ∀ c ∈ mark.toList, isSpace c = false := by
    intro mark hmark c hc
    simpa using List.all_eq_true.mp (hall mark hmark) c hc
  rw [← hlongest mark hmark]
  refine List.find?_congr fun other hother => Bool.eq_iff_iff.mpr ?_
  rw [List.isPrefixOf_iff_prefix, List.isPrefixOf_iff_prefix]
  exact ⟨prefix_apart (hspaces other hother) hrest, fun h => h.trans (List.prefix_append _ _)⟩

section Symbols

variable {mark : String} {c : Char} {text : List Char} (hmark : mark ∈ symbols)
  (htext : mark.toList = c :: text) (hrest : Apart rest)

include hmark htext hrest

/-- A `/` that is a mark or starts one starts no comment. -/
theorem head?_ne_of_symbol {d : Char} (hd : isSpace d = false) (hequals : d ≠ '=') (hc : c = '/') :
    (text ++ rest).head? ≠ some d := by
  intro heq
  have hslash : ∀ mark ∈ symbols, mark.toList.head? = some '/' →
    mark.toList.tail = [] ∨ mark.toList.tail.head? = some '=' := by decide
  have htail := hslash mark hmark (by rw [htext, hc]; rfl)
  rw [htext, List.tail_cons] at htail
  rcases htail with rfl | htail
  · exact ne_of_isSpace (hrest d heq) hd rfl
  · rw [List.head?_append, htail] at heq
    exact hequals (Option.some.inj heq).symm

/-- A point that is a mark starts no number. -/
theorem fractionLength_symbol : fractionLength (c :: (text ++ rest)) = none := by
  have hpoint : ∀ mark ∈ symbols, mark.toList.head? = some '.' → mark.toList.tail = [] := by decide
  by_cases hc : c = '.'
  · subst hc
    have htail := hpoint mark hmark (by rw [htext]; rfl)
    rw [htext, List.tail_cons] at htail
    have hdigits : digitCount ([] ++ rest) = 0 := digitCount_apart (by simp) hrest
    rw [htail, fractionLength, if_pos hdigits]
  · unfold fractionLength
    split
    · rename_i heq
      exact absurd (List.cons.inj heq).1 hc
    · rfl

/-- A mark is read as such wherever nothing follows or a space does. -/
theorem munch_symbol : munch c (text ++ rest) = (.symbol, text.length) := by
  obtain ⟨hspace, hsemicolon, hdigit, hdouble, hsingle, hletter⟩ :=
    starts_of_mem_symbols hmark (by rw [htext]; rfl)
  have hstarts : ∀ d, isSpace d = false → d ≠ '=' →
      ¬ (c == '/' && (text ++ rest).head? == some d) = true := by
    intro d hd hequals
    simpa using head?_ne_of_symbol hmark htext hrest hd hequals
  have hquote : ¬ (c == '"' || c == '\x27') = true := by
    simp [hdouble, hsingle]
  have hfind := find?_symbols hmark hrest
  rw [htext] at hfind
  have hlength : mark.length - 1 = text.length := by
    rw [← String.length_toList, htext]
    rfl
  rw [Lexeme.munch, if_neg (by simp [hspace]), if_neg (hstarts '/' rfl (by decide)),
    if_neg (hstarts '*' rfl (by decide)), if_neg (by simpa using hsemicolon),
    if_neg (by simp [hdigit]), if_neg hquote, if_neg (by simp [hletter]),
    fractionLength_symbol hmark htext hrest, ← List.cons_append, hfind]
  exact congrArg (Prod.mk Lexeme.symbol) hlength

end Symbols

/-- The text of a token is read as such wherever nothing follows or a space does. -/
theorem Spells.munch {lexeme : Lexeme} {c : Char} {text : List Char} (h : lexeme.Spells c text)
    (hrest : Apart rest) : munch c (text ++ rest) = (lexeme, text.length) := by
  cases h with
  | separator => simp [Lexeme.munch, isSpace]
  | integer hc hdigits =>
    have hne : ∀ d : Char, d.isDigit = false → c ≠ d := by
      rintro d hd rfl
      rw [hc] at hd
      cases hd
    simp [Lexeme.munch, isSpace, hne, hc, digitCount_apart hdigits hrest, fractionLength_apart hrest]
  | @decimal c whole digits hc hwhole hdigits hne =>
    have hother : ∀ d : Char, d.isDigit = false → c ≠ d := by
      rintro d hd rfl
      rw [hc] at hd
      cases hd
    have hcount : digitCount (whole ++ '.' :: (digits ++ rest)) = whole.length := by
      rw [digitCount, List.takeWhile_append_of_pos hwhole]
      simp
    have hfraction := fractionLength_digits hdigits hne hrest
    simp [Lexeme.munch, isSpace, hother, hc, hcount, hfraction]
  | fraction hdigits hne =>
    have hfraction := fractionLength_digits hdigits hne hrest
    have hletter : startsName '.' = false := by decide
    simp [Lexeme.munch, isSpace, hfraction, hletter]
  | string hc htext =>
    have hclosed := stringLength_append [] rest text (by rwa [List.append_nil])
    rcases hc with rfl | rfl
    · simp [Lexeme.munch, isSpace, hclosed]
    · simp [Lexeme.munch, isSpace, hclosed]
  | name hc htext =>
    have hne : ∀ d : Char, startsName d = false → c ≠ d := by
      rintro d hd rfl
      rw [hc] at hd
      cases hd
    have hnames := takeWhile_apart (fun _ => continuesName_of_isSpace) htext hrest
    have hspecial : ∀ d ∈ [' ', '\t', '\r', '\n', '\x0c', '/', ';', '"', '\x27'], c ≠ d := by
      intro d hd
      have hall : [' ', '\t', '\r', '\n', '\x0c', '/', ';', '"', '\x27'].all fun d =>
        !startsName d := by decide
      exact hne d (by simpa using List.all_eq_true.mp hall d hd)
    simp only [List.forall_mem_cons] at hspecial
    simp [Lexeme.munch, isSpace, hspecial, hc, hnames, isDigit_of_startsName hc]
  | symbol hmark htext => exact munch_symbol hmark htext hrest

end Lexeme

/-! ## Texts of tokens -/

/-- The part of a text that the span covers. -/
def Span.textIn (s : Span) (source : List Char) : List Char :=
  ((leading s.stop source).getD source).drop ((leading s.start source).getD source).length

theorem Span.textIn_piece (before piece after : List Char) :
    Span.textIn ⟨byteSize before, byteSize before + byteSize piece⟩ (before ++ (piece ++ after)) =
      piece := by
  have hstop : leading (byteSize before + byteSize piece) (before ++ (piece ++ after)) =
      some (before ++ piece) := by
    rw [← byteSize_append, ← List.append_assoc, leading_append]
  rw [Span.textIn, hstop, leading_append, Option.getD_some, Option.getD_some, List.drop_left]

/-- The text is spelled like a token, and it is read as one of this kind. -/
def TokenKind.Spelled (kind : TokenKind) (text : List Char) : Prop :=
  ∃ lexeme c rest, text = c :: rest ∧ lexeme.Spells c rest ∧
    ∀ span, Token.ofLexeme lexeme text span = .ok (some kind)

namespace Lexeme

theorem Spells.isSpace {lexeme : Lexeme} {c : Char} {text : List Char} (h : lexeme.Spells c text) :
    isSpace c = false := by
  have hmunch : Lexeme.munch c (text ++ []) = _ := h.munch fun d hd => nomatch hd
  cases hspace : Lexeme.isSpace c with
  | false => rfl
  | true =>
    rw [Lexeme.munch, if_pos hspace] at hmunch
    cases h <;> cases (Prod.mk.inj hmunch).1

end Lexeme

namespace Token

/-- What an inside of a string literal stands for does not depend on where it stands. -/
theorem unescape_offset {offset : Nat} {inside text : List Char} (h : unescape offset inside = .ok text)
    (offset' : Nat) : unescape offset' inside = .ok text := by
  fun_induction unescape offset inside generalizing text offset' with
  | case1 => exact h
  | case2 => exact h
  | case3 => cases h
  | case4 offset c rest d hsome ih =>
    obtain ⟨inner, hinner, rfl⟩ := map_eq_ok_iff.mp h
    rw [unescape, hsome]
    exact map_eq_ok_iff.mpr ⟨inner, ih hinner _, rfl⟩
  | case5 offset c rest hlast hescape ih =>
    obtain ⟨inner, hinner, rfl⟩ := map_eq_ok_iff.mp h
    rw [unescape]
    · exact map_eq_ok_iff.mpr ⟨inner, ih hinner _, rfl⟩
    · exact hlast
    · exact hescape

theorem ofLexeme_span {lexeme : Lexeme} {text : List Char} {span : Span} {kind : Option TokenKind}
    (h : ofLexeme lexeme text span = .ok kind) (span' : Span) :
    ofLexeme lexeme text span' = .ok kind := by
  cases lexeme with
  | integer =>
    simp only [ofLexeme] at h ⊢
    split at h
    · rename_i hle
      rw [if_pos hle]
      exact h
    · cases h
  | string =>
    obtain ⟨inside, hinside, rfl⟩ := map_eq_ok_iff.mp h
    exact map_eq_ok_iff.mpr ⟨inside, unescape_offset hinside _, rfl⟩
  | openComment | openString | unknown => cases h
  | _ => exact h

theorem isToken_of_ofLexeme {lexeme : Lexeme} {text : List Char} {span : Span} {kind : TokenKind}
    (h : ofLexeme lexeme text span = .ok (some kind)) : lexeme.isToken = true ∧ kind ≠ .eof := by
  cases lexeme with
  | blank | comment | openComment | openString | unknown => cases h
  | integer =>
    simp only [ofLexeme] at h
    split at h
    · cases h
      exact ⟨rfl, by simp⟩
    · cases h
  | string =>
    obtain ⟨inside, -, hkind⟩ := map_eq_ok_iff.mp h
    cases hkind
    exact ⟨rfl, by simp⟩
  | _ =>
    cases h
    exact ⟨rfl, by simp⟩

/-- A piece that is read as a token is spelled like one. -/
theorem spelled_of_munch {c : Char} {rest : List Char} {lexeme : Lexeme} {length : Nat} {span : Span}
    {kind : TokenKind} (hmunch : Lexeme.munch c rest = (lexeme, length))
    (h : ofLexeme lexeme (c :: rest.take length) span = .ok (some kind)) :
    kind.Spelled (c :: rest.take length) := by
  have hlength : (rest.take length).length = length := by
    have hle := Lexeme.munch_le c rest
    rw [hmunch] at hle
    exact List.length_take_of_le hle
  have hpiece : Lexeme.munch c (rest.take length ++ rest.drop length) =
      (lexeme, (rest.take length).length) := by
    rw [List.take_append_drop, hmunch, hlength]
  exact ⟨lexeme, c, rest.take length, rfl,
    Lexeme.spells_of_munch hpiece (isToken_of_ofLexeme h).1, ofLexeme_span h⟩

/-- The tokens of a text are spelled as the text has it at their places. -/
theorem scanFrom_spelled (before text : List Char) (skip : Nat) {tokens : List Token}
    (h : scanFrom (byteSize before + byteSize (text.take skip)) skip text = .ok tokens) :
    ∃ live last, tokens = live ++ [last] ∧ last.kind = .eof ∧ ∀ token ∈ live,
      token.kind ≠ .eof ∧ token.kind.Spelled (token.span.textIn (before ++ text)) := by
  induction text generalizing before skip tokens with
  | nil =>
    obtain ⟨place, rfl⟩ : ∃ place, tokens = [⟨.eof, place⟩] := by
      cases skip <;> exact ⟨_, (Except.ok.inj h).symm⟩
    exact ⟨[], _, rfl, rfl, by simp⟩
  | cons c rest ih =>
    cases skip with
    | succ skip =>
      have hrest := @ih (before ++ [c]) skip tokens
        (by simpa [scanFrom, byteSize, Nat.add_assoc] using h)
      simpa using hrest
    | zero =>
      rcases hmunch : Lexeme.munch c rest with ⟨lexeme, length⟩
      let span : Span := ⟨byteSize before, byteSize before + byteSize (c :: rest.take length)⟩
      have hrest : ∀ {tokens}, scanFrom span.stop length rest = .ok tokens →
          ∃ live last, tokens = live ++ [last] ∧ last.kind = .eof ∧ ∀ token ∈ live,
            token.kind ≠ .eof ∧ token.kind.Spelled (token.span.textIn (before ++ c :: rest)) := by
        intro tokens htokens
        have hnext := @ih (before ++ [c]) length tokens
          (by simpa [span, byteSize, Nat.add_assoc] using htokens)
        simpa using hnext
      rw [List.take_zero, byteSize, Nat.add_zero] at h
      cases hkind : ofLexeme lexeme (c :: rest.take length) span with
      | error e =>
        rw [scanFrom_error hmunch rfl hkind] at h
        cases h
      | ok kind =>
        cases kind with
        | none =>
          rw [scanFrom_none hmunch rfl hkind] at h
          exact hrest h
        | some kind =>
          rw [scanFrom_some hmunch rfl hkind] at h
          obtain ⟨others, hothers, rfl⟩ := map_eq_ok_iff.mp h
          obtain ⟨live, last, rfl, hlast, hlive⟩ := hrest hothers
          refine ⟨⟨kind, span⟩ :: live, last, rfl, hlast, List.forall_mem_cons.mpr ⟨?_, hlive⟩⟩
          have htext : span.textIn (before ++ c :: rest) = c :: rest.take length := by
            have hpiece := Span.textIn_piece before (c :: rest.take length) (rest.drop length)
            rwa [List.cons_append, List.take_append_drop] at hpiece
          refine ⟨(isToken_of_ofLexeme hkind).2, ?_⟩
          rw [htext]
          exact spelled_of_munch hmunch hkind

end Token

/-! ## Other layouts -/

/-- The text is a layout of the texts of tokens: between them stand spaces and comments with their ends,
and right after each of them nothing or a space. A line comment may also end with the text. -/
inductive Layout : List (List Char) → List Char → Prop
  | nil : Layout [] []
  | space {texts : List (List Char)} {chars : List Char} {c : Char} :
    Lexeme.isSpace c = true → Layout texts chars → Layout texts (c :: chars)
  | blockComment {texts : List (List Char)} {chars body : List Char} :
    ¬ ['*', '/'] <:+: body → Layout texts chars →
    Layout texts ('/' :: '*' :: (body ++ '*' :: '/' :: chars))
  | lineComment {texts : List (List Char)} {chars body : List Char} :
    '\n' ∉ body → Layout texts chars → Layout texts ('/' :: '/' :: (body ++ '\n' :: chars))
  | lastComment {body : List Char} : '\n' ∉ body → Layout [] ('/' :: '/' :: body)
  | token {texts : List (List Char)} {text chars : List Char} :
    Lexeme.Apart chars → Layout texts chars → Layout (text :: texts) (text ++ chars)

namespace Lexeme

theorem commentLength_body {body : List Char} (hbody : ¬ ['*', '/'] <:+: body) (rest : List Char) :
    commentLength (body ++ '*' :: '/' :: rest) = some (body.length + 2) := by
  induction body with
  | nil => rfl
  | cons c body ih =>
    have hinner := ih fun h => hbody (h.trans (List.suffix_cons c body).isInfix)
    have hopen : ∀ tail, c = '*' → body ++ '*' :: '/' :: rest = '/' :: tail → False := by
      rintro tail rfl heq
      rcases body with _ | ⟨d, body⟩
      · cases heq
      · obtain rfl : d = '/' := (List.cons.inj heq).1
        exact hbody ⟨[], body, rfl⟩
    rw [List.cons_append, commentLength, hinner]
    · rfl
    · exact hopen

end Lexeme

namespace Token

/-- The text is scanned to tokens of these kinds, wherever it starts. -/
def Scans (chars : List Char) (kinds : List TokenKind) : Prop :=
  ∀ offset, ∃ tokens, scanFrom offset 0 chars = .ok tokens ∧ tokens.map (·.kind) = kinds ++ [.eof]

theorem scans_of_dropWhile {chars : List Char} {kinds : List TokenKind}
    (h : Scans (chars.dropWhile Lexeme.isSpace) kinds) : Scans chars kinds := by
  intro offset
  obtain ⟨offset', hscan⟩ := scanFrom_dropWhile offset chars
  rw [hscan]
  exact h offset'

/-- A comment is passed over. -/
theorem scans_comment {c : Char} {text rest : List Char} {kinds : List TokenKind}
    (hmunch : Lexeme.munch c (text ++ rest) = (.comment, text.length)) (h : Scans rest kinds) :
    Scans (c :: (text ++ rest)) kinds := by
  intro offset
  rw [scanFrom_none hmunch rfl rfl, scanFrom_skip, List.drop_left]
  exact h _

theorem scans_token {kind : TokenKind} {text rest : List Char} {kinds : List TokenKind}
    (hkind : kind.Spelled text) (hrest : Lexeme.Apart rest) (h : Scans rest kinds) :
    Scans (text ++ rest) (kind :: kinds) := by
  obtain ⟨lexeme, c, others, rfl, hspells, hread⟩ := hkind
  intro offset
  have hmunch := hspells.munch hrest
  have hpiece : ofLexeme lexeme (c :: (others ++ rest).take others.length)
      ⟨offset, offset + byteSize (c :: (others ++ rest).take others.length)⟩ = .ok (some kind) := by
    rw [List.take_left]
    exact hread _
  obtain ⟨tokens, htokens, hmap⟩ := h (offset + byteSize (c :: (others ++ rest).take others.length))
  rw [List.cons_append, scanFrom_some hmunch rfl hpiece, scanFrom_skip, List.drop_left, htokens]
  exact ⟨_, rfl, congrArg (kind :: ·) hmap⟩

theorem dropWhile_spelled {kind : TokenKind} {text : List Char} (h : kind.Spelled text)
    (rest : List Char) :
    (text ++ rest).dropWhile Lexeme.isSpace = text ++ rest := by
  obtain ⟨lexeme, c, others, rfl, hspells, -⟩ := h
  rw [List.cons_append, List.dropWhile_cons_of_neg (by simp [hspells.isSpace])]

/-- **The texts of tokens are scanned to the tokens in every layout.** -/
theorem scans_layout {texts : List (List Char)} {chars : List Char} (h : Layout texts chars)
    {kinds : List TokenKind} (hkinds : List.Forall₂ TokenKind.Spelled kinds texts) :
    Scans chars kinds := by
  -- A space takes all those after it along, so the statement is proved for what they leave.
  suffices hleft : Scans (chars.dropWhile Lexeme.isSpace) kinds from scans_of_dropWhile hleft
  have hline : ∀ {body : List Char} (rest : List Char), '\n' ∉ body → (∀ c ∈ rest.head?, c = '\n') →
      Lexeme.munch '/' ('/' :: body ++ rest) = (.comment, ('/' :: body).length) := by
    intro body rest hbody hrest
    have hwhile : ('/' :: body ++ rest).takeWhile (· ≠ '\n') = '/' :: body := by
      rw [List.takeWhile_append_of_pos]
      · cases rest with
        | nil => simp
        | cons c rest =>
          obtain rfl := hrest c rfl
          simp
      · intro c hc
        rcases List.mem_cons.mp hc with rfl | hc
        · decide
        · simpa using ne_of_mem_of_not_mem hc hbody
    rw [Lexeme.munch, if_neg (by decide), if_pos (by simp), hwhile]
  induction h generalizing kinds with
  | nil =>
    cases hkinds
    exact fun offset => ⟨_, rfl, rfl⟩
  | space hspace _ ih =>
    rw [List.dropWhile_cons_of_pos hspace]
    exact ih hkinds
  | @blockComment texts chars body hbody _ ih =>
    rw [List.dropWhile_cons_of_neg (by decide)]
    have hmunch : Lexeme.munch '/' ('*' :: body ++ ['*', '/'] ++ chars) =
        (.comment, ('*' :: body ++ ['*', '/']).length) := by
      have hlength : Lexeme.commentLength ('*' :: body ++ ['*', '/'] ++ chars).tail =
          some (body.length + 2) := by
        have hbody := Lexeme.commentLength_body hbody chars
        simpa using hbody
      rw [Lexeme.munch, if_neg (by decide), if_neg (by simp), if_pos (by simp), hlength]
      simp
    have hcomment := scans_comment hmunch (scans_of_dropWhile (ih hkinds))
    simpa using hcomment
  | @lineComment texts chars body hbody _ ih =>
    rw [List.dropWhile_cons_of_neg (by decide)]
    refine scans_comment (hline ('\n' :: chars) hbody (by simp)) (scans_of_dropWhile ?_)
    rw [List.dropWhile_cons_of_pos rfl]
    exact ih hkinds
  | @lastComment body hbody =>
    cases hkinds
    rw [List.dropWhile_cons_of_neg (by decide)]
    have hend : Scans [] [] := fun offset => ⟨_, rfl, rfl⟩
    have hcomment := scans_comment (hline [] hbody (by simp)) hend
    rwa [List.append_nil] at hcomment
  | token hrest _ ih =>
    cases hkinds with
    | cons hkind hkinds =>
      rw [dropWhile_spelled hkind]
      exact scans_token hkind hrest (scans_of_dropWhile (ih hkinds))

/-- The texts of the tokens of a source, without the end token. -/
def texts (source : String) (tokens : List Token) : List (List Char) :=
  (tokens.filter (·.kind ≠ .eof)).map (·.span.textIn source.toList)

/-- **Laid out otherwise, a source has the same tokens up to where they stand.** -/
theorem scan_layout {source : String} {tokens : List Token} (h : scan source = .ok tokens)
    {chars : List Char} (hlayout : Layout (texts source tokens) chars) :
    ∃ tokens', scan (String.ofList chars) = .ok tokens' ∧
      tokens'.map (·.kind) = tokens.map (·.kind) := by
  obtain ⟨live, last, rfl, hlast, hlive⟩ := scanFrom_spelled [] source.toList 0 h
  have htexts : texts source (live ++ [last]) = live.map (·.span.textIn source.toList) := by
    have hfilter : (live ++ [last]).filter (·.kind ≠ .eof) = live := by
      rw [List.filter_append, List.filter_eq_self.mpr fun token htoken => by simpa using (hlive token htoken).1]
      simp [hlast]
    rw [texts, hfilter]
  have hspelled : List.Forall₂ TokenKind.Spelled (live.map (·.kind)) (texts source (live ++ [last])) := by
    rw [htexts, List.forall₂_map_left_iff, List.forall₂_map_right_iff, List.forall₂_same]
    exact fun token htoken => (hlive token htoken).2
  obtain ⟨tokens', htokens', hkinds⟩ := scans_layout hlayout hspelled 0
  refine ⟨tokens', ?_, by simp [hkinds, hlast]⟩
  rw [scan, String.toList_ofList]
  exact htokens'

end Token

end SlotScript
