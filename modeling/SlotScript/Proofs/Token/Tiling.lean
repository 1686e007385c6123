import SlotScript.Proofs.Token.Layout

/-!
# Tokens tile the source

**Theorem (`Token.scan_tiles`).** If a source can be scanned, then its tokens stand in it one after the
other. None of them is empty, each starts and ends between characters, and what stands before, between
and after them is spaces and whole comments. The text of a token, scanned alone, is that token. The list
ends with one end token, which stands at the end of the source.

The scanner cuts a piece off the text at a time, so the proof follows the pieces. `Tiling` says what the
pieces from some offset on come to: a gap, a token, and so on up to the last gap. A piece that is skipped
becomes a part of the gap before the next token.
-/

namespace SlotScript

/-- What stands between tokens, or, if `last` holds, after the last one: spaces and whole comments. A
line comment goes up to a line feed, or to the end of the text. -/
inductive Gap (last : Prop) : List Char → Prop
  | nil : Gap last []
  | space {c : Char} {chars : List Char} (hc : Lexeme.isSpace c = true) :
    Gap last chars → Gap last (c :: chars)
  | blockComment {body chars : List Char} (hbody : ¬ ['*', '/'] <:+: body) :
    Gap last chars → Gap last ('/' :: '*' :: (body ++ '*' :: '/' :: chars))
  | lineComment {body chars : List Char} (hbody : '\n' ∉ body)
    (hend : chars.head? = some '\n' ∨ last ∧ chars = []) :
    Gap last chars → Gap last ('/' :: '/' :: (body ++ chars))

/-- A piece of a text that is no token, and what comes after it. -/
inductive Lexeme.Skipped (after : List Char) : List Char → Prop
  | blank {piece : List Char} (hpiece : ∀ c ∈ piece, isSpace c = true) : Skipped after piece
  | blockComment {body : List Char} (hbody : ¬ ['*', '/'] <:+: body) :
    Skipped after ('/' :: '*' :: (body ++ ['*', '/']))
  | lineComment {body : List Char} (hbody : '\n' ∉ body)
    (hend : after.head? = some '\n' ∨ after = []) : Skipped after ('/' :: '/' :: body)

/-- The tokens of a text that starts at the offset, with the gaps around them. -/
inductive Token.Tiling : Nat → List Token → List Char → Prop
  | last {offset : Nat} {gap : List Char} : Gap True gap →
    Tiling offset [⟨.eof, ⟨offset + byteSize gap, offset + byteSize gap⟩⟩] gap
  | token {offset : Nat} {kind : TokenKind} {gap text rest : List Char} {tokens : List Token} :
    Gap False gap → kind.Spelled text → kind ≠ .eof →
    Tiling (offset + byteSize (gap ++ text)) tokens rest →
    Tiling offset (⟨kind, ⟨offset + byteSize gap, offset + byteSize (gap ++ text)⟩⟩ :: tokens)
      (gap ++ (text ++ rest))

/-! ## Pieces that are skipped -/

namespace Lexeme

theorem commentLength_eq_some {text : List Char} {length : Nat} (h : commentLength text = some length) :
    ∃ body after, text = body ++ '*' :: '/' :: after ∧ ¬ ['*', '/'] <:+: body ∧
      length = body.length + 2 := by
  fun_induction commentLength text generalizing length with
  | case1 after => exact ⟨[], after, rfl, by simp, (Option.some.inj h).symm⟩
  | case2 c rest hopen ih =>
    obtain ⟨inner, hinner, rfl⟩ := Option.map_eq_some_iff.mp h
    obtain ⟨body, after, rfl, hbody, rfl⟩ := ih hinner
    refine ⟨c :: body, after, rfl, fun hinfix => ?_, by simp⟩
    rcases List.infix_cons_iff.mp hinfix with hfirst | hinfix
    · obtain ⟨rfl, tail, rfl⟩ := List.cons_prefix_cons.mp hfirst
      exact hopen _ rfl rfl
    · exact hbody hinfix
  | case3 => cases h

theorem takeWhile_take_length {p : Char → Bool} {text : List Char} {c : Char}
    (h : c ∈ text.take (text.takeWhile p).length) : p c = true := by
  have htake : text.take (text.takeWhile p).length = text.takeWhile p :=
    (List.prefix_iff_eq_take.mp (List.takeWhile_prefix p)).symm
  rw [htake] at h
  exact List.mem_takeWhile_imp h

/-- What the scanner skips is blank, or it is a comment with its end. -/
theorem skipped_of_munch {c : Char} {rest : List Char} {lexeme : Lexeme} {length : Nat} {span : Span}
    (hmunch : munch c rest = (lexeme, length))
    (h : Token.ofLexeme lexeme (c :: rest.take length) span = .ok none) :
    Skipped (rest.drop length) (c :: rest.take length) := by
  have hlexeme : lexeme = .blank ∨ lexeme = .comment := by
    cases lexeme with
    | blank => exact Or.inl rfl
    | comment => exact Or.inr rfl
    | integer =>
      simp only [Token.ofLexeme] at h
      split at h <;> cases h
    | string =>
      obtain ⟨inside, -, hnone⟩ := map_eq_ok_iff.mp h
      cases hnone
    | _ => cases h
  unfold munch at hmunch
  split at hmunch
  · rename_i hspace
    obtain ⟨-, rfl⟩ := Prod.mk.inj hmunch
    exact .blank (List.forall_mem_cons.mpr ⟨hspace, fun d hd => takeWhile_take_length hd⟩)
  split at hmunch
  · rename_i hslash
    obtain ⟨-, rfl⟩ := Prod.mk.inj hmunch
    obtain ⟨rfl, tail, rfl⟩ : c = '/' ∧ ∃ tail, rest = '/' :: tail := by
      simpa [List.head?_eq_some_iff] using hslash
    have hwhile : ('/' :: tail).takeWhile (· ≠ '\n') = '/' :: tail.takeWhile (· ≠ '\n') := by
      rw [List.takeWhile_cons_of_pos (by decide)]
    have htake : tail.take (tail.takeWhile (· ≠ '\n')).length = tail.takeWhile (· ≠ '\n') :=
      (List.prefix_iff_eq_take.mp (List.takeWhile_prefix _)).symm
    rw [hwhile, List.length_cons, List.take_succ_cons, List.drop_succ_cons, htake,
      Token.drop_length_takeWhile]
    refine .lineComment (fun hmem => ?_) ?_
    · simpa using List.mem_takeWhile_imp hmem
    · cases hafter : tail.dropWhile (· ≠ '\n') with
      | nil => exact Or.inr rfl
      | cons d after =>
        have hd := List.head?_dropWhile_not (· ≠ '\n') tail
        rw [hafter] at hd
        exact Or.inl (by simpa using hd)
  split at hmunch
  · rename_i hopen
    obtain ⟨rfl, tail, rfl⟩ : c = '/' ∧ ∃ tail, rest = '*' :: tail := by
      simpa [List.head?_eq_some_iff] using hopen
    split at hmunch
    · rename_i inner hinner
      obtain ⟨-, rfl⟩ := Prod.mk.inj hmunch
      obtain ⟨body, after, rfl, hbody, rfl⟩ := commentLength_eq_some hinner
      have htext : body ++ '*' :: '/' :: after = (body ++ ['*', '/']) ++ after := by simp
      have hlength : (body ++ ['*', '/']).length = body.length + 2 := by simp
      rw [List.take_succ_cons, List.drop_succ_cons, htext, ← hlength, List.take_left, List.drop_left]
      exact .blockComment hbody
    · obtain ⟨rfl, -⟩ := Prod.mk.inj hmunch
      rcases hlexeme with h | h <;> cases h
  -- All other pieces are tokens or faults.
  rcases hlexeme with rfl | rfl <;> grind

end Lexeme

/-! ## Gaps -/

theorem Gap.append_blank {last : Prop} {piece chars : List Char}
    (hpiece : ∀ c ∈ piece, Lexeme.isSpace c = true) (h : Gap last chars) : Gap last (piece ++ chars) := by
  induction piece with
  | nil => exact h
  | cons c piece ih =>
    obtain ⟨hc, hpiece⟩ := List.forall_mem_cons.mp hpiece
    exact .space hc (ih hpiece)

/-- A piece that is skipped goes to the gap that follows it. -/
theorem Gap.append_skipped {last : Prop} {piece gap after : List Char}
    (hskipped : Lexeme.Skipped after piece)
    (hafter : after.head? = some '\n' ∨ after = [] →  gap.head? = some '\n' ∨ last ∧ gap = [])
    (h : Gap last gap) : Gap last (piece ++ gap) := by
  cases hskipped with
  | blank hpiece => exact h.append_blank hpiece
  | @blockComment body hbody =>
    have hcomment := Gap.blockComment hbody h
    simpa using hcomment
  | lineComment hbody hend => exact .lineComment hbody (hafter hend) h

namespace Token

theorem Tiling.skip {offset : Nat} {tokens : List Token} {piece after : List Char}
    (hskipped : Lexeme.Skipped after piece) (h : Tiling (offset + byteSize piece) tokens after) :
    Tiling offset tokens (piece ++ after) := by
  cases h with
  | last hgap =>
    have hall : Tiling offset _ (piece ++ after) := .last (hgap.append_skipped hskipped (by simp))
    rwa [byteSize_append, ← Nat.add_assoc] at hall
  | @token _ kind gap text rest tokens hgap hspelled heof hrest =>
    -- A token starts with neither a line feed nor the end, so the comment's end is in the gap.
    have hend : (gap ++ (text ++ rest)).head? = some '\n' ∨ gap ++ (text ++ rest) = [] →
        gap.head? = some '\n' ∨ False ∧ gap = [] := by
      obtain ⟨lexeme, c, others, rfl, hspells, -⟩ := hspelled
      cases gap with
      | nil =>
        rintro (hhead | hnil)
        · obtain rfl : c = '\n' := Option.some.inj hhead
          cases hspells.isSpace
        · cases hnil
      | cons d gap =>
        rintro (hhead | hnil)
        · exact Or.inl hhead
        · cases hnil
    have hrest : Tiling (offset + byteSize ((piece ++ gap) ++ text)) tokens rest := by
      simpa [Nat.add_assoc] using hrest
    have hall := Tiling.token (hgap.append_skipped hskipped hend) hspelled heof hrest
    simpa [Nat.add_assoc] using hall

/-- The tokens that the scanner finds tile the text. -/
theorem tiling_of_scanFrom : ∀ {offset : Nat} (text : List Char) {tokens : List Token},
    scanFrom offset 0 text = .ok tokens → Tiling offset tokens text
  | _, [], _, h => by
    obtain rfl := Except.ok.inj h
    exact .last .nil
  | offset, c :: rest, tokens, h => by
    rcases hmunch : Lexeme.munch c rest with ⟨lexeme, length⟩
    have htext : c :: rest = (c :: rest.take length) ++ rest.drop length := by
      rw [List.cons_append, List.take_append_drop]
    let span : Span := ⟨offset, offset + byteSize (c :: rest.take length)⟩
    have hnext : ∀ {tokens}, scanFrom span.stop length rest = .ok tokens →
        Tiling span.stop tokens (rest.drop length) := by
      intro tokens htokens
      rw [scanFrom_skip] at htokens
      exact tiling_of_scanFrom (rest.drop length) htokens
    cases hkind : ofLexeme lexeme (c :: rest.take length) span with
    | error e =>
      rw [scanFrom_error hmunch rfl hkind] at h
      cases h
    | ok kind =>
      cases kind with
      | none =>
        rw [scanFrom_none hmunch rfl hkind] at h
        rw [htext]
        exact (hnext h).skip (Lexeme.skipped_of_munch hmunch hkind)
      | some kind =>
        rw [scanFrom_some hmunch rfl hkind] at h
        obtain ⟨others, hothers, rfl⟩ := map_eq_ok_iff.mp h
        rw [htext]
        exact .token .nil (spelled_of_munch hmunch hkind) (isToken_of_ofLexeme hkind).2 (hnext hothers)
termination_by _ text => text.length
decreasing_by
  rw [List.length_cons, List.length_drop]
  exact Nat.lt_succ_of_le (Nat.sub_le _ _)

/-! ## The whole source -/

/-- The text of a token, scanned alone, is that token. -/
theorem scan_spelled {kind : TokenKind} {text : List Char} (h : kind.Spelled text) :
    scan (String.ofList text) =
      .ok [⟨kind, ⟨0, byteSize text⟩⟩, ⟨.eof, ⟨byteSize text, byteSize text⟩⟩] := by
  obtain ⟨lexeme, c, rest, rfl, hspells, hread⟩ := h
  have hmunch : Lexeme.munch c rest = (lexeme, rest.length) := by
    have hapart : Lexeme.Apart [] := fun d hd => nomatch hd
    have hmunch := hspells.munch hapart
    rwa [List.append_nil] at hmunch
  have hkind : ofLexeme lexeme (c :: rest.take rest.length) ⟨0, 0 + byteSize (c :: rest.take rest.length)⟩ =
      .ok (some kind) := by
    rw [List.take_length]
    exact hread _
  rw [scan, String.toList_ofList, scanFrom_some hmunch rfl hkind, scanFrom_skip, List.drop_length,
    List.take_length]
  simp [scanFrom, Except.map]

/-- From the offset on, the tokens stand in the source one after the other, with nothing but gaps around
them. -/
structure Tiles (source : List Char) (offset : Nat) (live : List Token) : Prop where
  /-- They come after the offset. -/
  start : ∀ token ∈ live, offset ≤ token.span.start
  /-- None of them is empty. -/
  nonempty : ∀ token ∈ live, token.span.start < token.span.stop
  /-- They start and end between characters. -/
  within : ∀ token ∈ live, token.span.Within source
  /-- They are in order and do not overlap. -/
  ordered : live.Pairwise fun a b => a.span.stop ≤ b.span.start
  /-- The text of each, scanned alone, is the token. -/
  alone : ∀ token ∈ live, scan (String.ofList (token.span.textIn source)) =
    .ok [⟨token.kind, ⟨0, token.span.size⟩⟩, ⟨.eof, ⟨token.span.size, token.span.size⟩⟩]
  /-- What comes before the first. -/
  before : ∀ token ∈ live.head?, Gap False (Span.textIn ⟨offset, token.span.start⟩ source)
  /-- What comes between two of them. -/
  between : live.IsChain fun a b => Gap False (Span.textIn ⟨a.span.stop, b.span.start⟩ source)
  /-- What comes after the last. -/
  after : Gap True
    (Span.textIn ⟨(live.getLast?.map (·.span.stop)).getD offset, byteSize source⟩ source)

theorem Tiling.tiles {offset : Nat} {tokens : List Token} {text : List Char}
    (h : Tiling offset tokens text) (front : List Char) (hoffset : offset = byteSize front) :
    ∃ live, tokens = live ++ [⟨.eof, ⟨byteSize (front ++ text), byteSize (front ++ text)⟩⟩] ∧
      (∀ token ∈ live, token.kind ≠ .eof) ∧ Tiles (front ++ text) offset live := by
  induction h generalizing front with
  | @last offset gap hgap =>
    subst hoffset
    refine ⟨[], by simp, by simp, by simp, by simp, by simp, .nil, by simp, by simp, .nil, ?_⟩
    have htext := Span.textIn_piece front gap []
    rw [List.append_nil, ← byteSize_append] at htext
    show Gap True (Span.textIn ⟨byteSize front, byteSize (front ++ gap)⟩ (front ++ gap))
    rw [htext]
    exact hgap
  | @token offset kind gap text rest tokens hgap hspelled heof _ ih =>
    subst hoffset
    obtain ⟨live, rfl, hlive, htiles⟩ := ih (front ++ (gap ++ text)) (byteSize_append _ _).symm
    have hsource : front ++ (gap ++ text) ++ rest = front ++ (gap ++ (text ++ rest)) := by simp
    rw [hsource] at htiles ⊢
    let span : Span := ⟨byteSize front + byteSize gap, byteSize front + byteSize (gap ++ text)⟩
    have hspan : span = ⟨byteSize (front ++ gap), byteSize (front ++ gap) + byteSize text⟩ := by
      simp [span, Nat.add_assoc]
    have hpiece : span.textIn (front ++ (gap ++ (text ++ rest))) = text := by
      have hpiece := Span.textIn_piece (front ++ gap) text rest
      rwa [← hspan, List.append_assoc] at hpiece
    have hsize : span.size = byteSize text := by
      rw [hspan, Span.size, Nat.add_sub_cancel_left]
    have hpos : 0 < byteSize text := by
      obtain ⟨-, c, others, rfl, -⟩ := hspelled
      exact Nat.add_pos_left c.utf8Size_pos _
    have hwithin : span.Within (front ++ (gap ++ (text ++ rest))) := by
      have hwithin := Span.within_piece (front ++ gap) text rest
      rwa [← hspan, List.append_assoc] at hwithin
    refine ⟨⟨kind, span⟩ :: live, rfl, List.forall_mem_cons.mpr ⟨heof, hlive⟩, ?_⟩
    exact
      { start := List.forall_mem_cons.mpr ⟨Nat.le_add_right _ _, fun token htoken =>
          (Nat.le_add_right _ _).trans (htiles.start token htoken)⟩
        nonempty := List.forall_mem_cons.mpr ⟨by simpa [span] using hpos, htiles.nonempty⟩
        within := List.forall_mem_cons.mpr ⟨hwithin, htiles.within⟩
        ordered := List.pairwise_cons.mpr ⟨htiles.start, htiles.ordered⟩
        alone := by
          refine List.forall_mem_cons.mpr ⟨?_, htiles.alone⟩
          rw [hpiece, hsize]
          exact scan_spelled hspelled
        before := by
          rintro _ ⟨⟩
          rw [Span.textIn_piece front gap (text ++ rest)]
          exact hgap
        between := List.isChain_cons.mpr ⟨htiles.before, htiles.between⟩
        after := by
          have hafter := htiles.after
          rw [List.getLast?_cons]
          cases hlast : live.getLast? with
          | none => simpa [hlast, span] using hafter
          | some token => simpa [hlast, span] using hafter }

/-- **Tokens tile the source.** -/
theorem scan_tiles {source : String} {tokens : List Token} (h : scan source = .ok tokens) :
    ∃ live, tokens =
        live ++ [⟨.eof, ⟨byteSize source.toList, byteSize source.toList⟩⟩] ∧
      (∀ token ∈ live, token.kind ≠ .eof) ∧ Tiles source.toList 0 live :=
  (tiling_of_scanFrom source.toList h).tiles [] rfl

/-- A comment in front, one between tokens that has its end in the next line, and one at the end:
`/*é*/x=//y⏎'é';//`, with a character of two bytes in the first comment and in the literal. -/
theorem scan_tiles_comments : ∃ tokens live, scan "/*é*/x=//y\n\x27é\x27;//" = .ok tokens ∧
    tokens.map (·.span) = [⟨6, 7⟩, ⟨7, 8⟩, ⟨12, 16⟩, ⟨16, 17⟩, ⟨19, 19⟩] ∧
    tokens = live ++ [⟨.eof, ⟨19, 19⟩⟩] ∧ (∀ token ∈ live, token.kind ≠ .eof) ∧
    Tiles "/*é*/x=//y\n\x27é\x27;//".toList 0 live := by
  have hspans : (scan "/*é*/x=//y\n\x27é\x27;//").toOption.map (·.map (·.span)) =
      some [⟨6, 7⟩, ⟨7, 8⟩, ⟨12, 16⟩, ⟨16, 17⟩, ⟨19, 19⟩] := by
    decide +kernel
  obtain ⟨tokens, hscan⟩ := exists_ok_of_isOk
    (by decide +kernel : (scan "/*é*/x=//y\n\x27é\x27;//").isOk = true)
  rw [hscan] at hspans
  obtain ⟨live, htokens, hlive, htiles⟩ := scan_tiles hscan
  exact ⟨tokens, live, hscan, Option.some.inj hspans, htokens, hlive, htiles⟩

end Token

end SlotScript
