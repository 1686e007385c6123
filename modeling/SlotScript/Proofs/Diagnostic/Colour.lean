import SlotScript.Proofs.Diagnostic.Snippet

/-!
# Colours

A coloured piece of a diagnostic stands between the escape sequence that starts its colour and the one that
ends it.

**Theorem (`Diagnostic.render_withoutSequences`).** If no text that a diagnostic shows has an escape
character, then its coloured form without the escape sequences is its form without colours.

A sequence is found by reading (`withoutSequences`), so nothing that stands next to one may be taken for a
part of it. Reading passes over a text without escape characters as it is, and it passes over a whole
sequence and nothing more (`withoutSequences_start`, `withoutSequences_reset`). The pieces themselves are
made of what the diagnostic shows, of numbers, and of fixed texts (`Diagnostic.unescaped_pieces`).
-/

namespace SlotScript

/-! ## Reading without sequences -/

/-- What follows an escape sequence, from behind its escape character: it is a bracket, digits and
semicolons, and an `m`. -/
def afterSequence? : List Char → Option (List Char)
  | '[' :: rest =>
    match rest.dropWhile fun c => c.isDigit || c == ';' with
    | 'm' :: after => some after
    | _ => none
  | _ => none

theorem length_lt_of_afterSequence? {text after : List Char} (h : afterSequence? text = some after) :
    after.length < text.length := by
  unfold afterSequence? at h
  split at h
  · next rest =>
    have hdrop := (List.dropWhile_suffix (l := rest) fun c => c.isDigit || c == ';').length_le
    split at h
    · next found heq =>
      cases h
      rw [heq] at hdrop
      simp only [List.length_cons] at hdrop ⊢
      omega
    · cases h
  · cases h

/-- The text without its escape sequences. -/
def withoutSequences : List Char → List Char
  | [] => []
  | c :: rest =>
    if c = '\x1b' then
      match _h : afterSequence? rest with
      | some after => withoutSequences after
      | none => c :: withoutSequences rest
    else c :: withoutSequences rest
termination_by text => text.length
decreasing_by
  · have hlt := length_lt_of_afterSequence? ‹_›
    simp only [List.length_cons]
    omega
  · simp
  · simp

theorem withoutSequences_append {text : List Char} (htext : '\x1b' ∉ text) (rest : List Char) :
    withoutSequences (text ++ rest) = text ++ withoutSequences rest := by
  induction text with
  | nil => rfl
  | cons c text ih =>
    obtain ⟨hc, htext⟩ : '\x1b' ≠ c ∧ '\x1b' ∉ text := by simpa [not_or] using htext
    rw [List.cons_append, withoutSequences, if_neg hc.symm, ih htext, List.cons_append]

theorem withoutSequences_sequence {rest after : List Char} (h : afterSequence? rest = some after) :
    withoutSequences ('\x1b' :: rest) = withoutSequences after := by
  rw [withoutSequences, if_pos rfl]
  split
  · next found hfound =>
    rw [h] at hfound
    cases hfound
    rfl
  · next hnone =>
    rw [h] at hnone
    cases hnone

theorem withoutSequences_start (colour : Colour) (rest : List Char) :
    withoutSequences (colour.start.toList ++ rest) = withoutSequences rest := by
  cases colour <;> exact withoutSequences_sequence rfl

theorem withoutSequences_reset (rest : List Char) :
    withoutSequences (Colour.reset.toList ++ rest) = withoutSequences rest :=
  withoutSequences_sequence rfl

/-! ## Texts without escape characters -/

/-- The text has no escape character. -/
def Unescaped (text : String) : Prop := '\x1b' ∉ text.toList

instance (text : String) : Decidable (Unescaped text) := inferInstanceAs (Decidable (¬ _))

@[simp] theorem unescaped_append {a b : String} : Unescaped (a ++ b) ↔ Unescaped a ∧ Unescaped b := by
  simp [Unescaped, not_or]

@[simp] theorem unescaped_repr (n : Nat) : Unescaped n.repr := by
  intro h
  have hdigit := Nat.isDigit_of_mem_toDigits (b := 10) (n := n) (c := '\x1b') (by decide) (by decide)
    (by simpa using h)
  exact absurd hdigit (by decide)

theorem unescaped_repeated {c : Char} (hc : c ≠ '\x1b') (count : Nat) : Unescaped (repeated count c) := by
  simp [Unescaped, repeated, hc.symm]

theorem Code.unescaped_text (code : Code) : Unescaped code.text := by
  cases code <;> decide

/-- The lines of a text have no characters but those of the text. -/
theorem linesOf.mem_of_mem_go {c : Char} {line current text : List Char} (hline : line ∈ go current text)
    (hc : c ∈ line) : c ∈ current ∨ c ∈ text := by
  induction text generalizing current with
  | nil =>
    rw [go] at hline
    split at hline
    · cases hline
    · obtain rfl : line = current.reverse := by simpa using hline
      exact Or.inl (List.mem_reverse.mp hc)
  | cons d text ih =>
    by_cases hd : d = '\n'
    · subst hd
      obtain ⟨first, hfirst, hsubset⟩ := exists_go_newline current text
      rw [hfirst] at hline
      rcases List.mem_cons.mp hline with rfl | hline
      · exact Or.inl (hsubset hc)
      · exact Or.inr (List.mem_cons_of_mem _ ((ih hline).resolve_left List.not_mem_nil))
    · rw [go_cons hd] at hline
      rcases ih hline with hmem | hmem
      · rcases List.mem_cons.mp hmem with rfl | hmem
        · exact Or.inr List.mem_cons_self
        · exact Or.inl hmem
      · exact Or.inr (List.mem_cons_of_mem d hmem)

theorem unescaped_lineOf {source : List Char} (hsource : '\x1b' ∉ source) (index : Nat) :
    Unescaped (String.ofList ((linesOf source)[index]?.getD [])) := by
  intro h
  rw [String.toList_ofList] at h
  cases hline : (linesOf source)[index]? with
  | none => simp [hline] at h
  | some line =>
    rw [hline, Option.getD_some] at h
    have hmem := linesOf.mem_of_mem_go (List.mem_of_getElem? hline) h
    simp [hsource] at hmem

/-! ## The pieces of a diagnostic -/

/-- The texts that a diagnostic shows. -/
def Diagnostic.texts (d : Diagnostic) : List String :=
  d.message :: (d.labels.map (·.message) ++ d.notes ++ d.suggestions)

/-- The texts that tell where a diagnostic comes from. -/
def Origin.texts (origin : Origin) : List String := origin.source.toList ++ origin.path.toList

theorem Label.unescaped_location {label : Label} {origin : Origin}
    (horigin : ∀ text ∈ origin.texts, Unescaped text) : Unescaped (label.location origin) := by
  obtain ⟨_ | source, _ | path⟩ := origin
  · simp +decide [Label.location, Span.text]
  · have hpath : Unescaped path := horigin path (by simp [Origin.texts])
    simp +decide [Label.location, Span.text, hpath]
  · simp +decide [Label.location]
  · have hpath : Unescaped path := horigin path (by simp [Origin.texts])
    simp +decide [Label.location, hpath]

theorem Label.unescaped_snippet (label : Label) {source : List Char} (hsource : '\x1b' ∉ source) :
    ∀ piece ∈ label.snippet source, Unescaped piece.text := by
  have hunderline : label.underline ≠ '\x1b' := by
    rw [Label.underline]
    split <;> decide
  have hmarks := unescaped_repeated hunderline (max label.span.size 1)
  have hblank (count : Nat) : Unescaped (repeated count ' ') := unescaped_repeated (by decide) count
  have hline (index : Nat) := unescaped_lineOf hsource index
  simp +decide [Label.snippet, Piece.plain, Piece.tinted, hmarks, hblank, hline]

theorem Label.unescaped_pieces {label : Label} {origin : Origin} (hmessage : Unescaped label.message)
    (horigin : ∀ text ∈ origin.texts, Unescaped text) :
    ∀ piece ∈ label.pieces origin, Unescaped piece.text := by
  have hmarker : Unescaped label.marker := by
    rw [Label.marker]
    split <;> decide
  refine List.forall_mem_append.mpr ⟨List.forall_mem_cons.mpr ⟨?_, ?_⟩, ?_⟩
  · simp +decide [Piece.plain, hmarker, Label.unescaped_location horigin]
  · cases hsource : origin.source with
    | none => simp +decide [Piece.plain]
    | some source => exact label.unescaped_snippet (horigin source (by simp [Origin.texts, hsource]))
  · simp +decide [Label.messagePiece, Piece.plain, Piece.tinted, hmessage]

theorem Diagnostic.unescaped_remark {title text : String} (htitle : Unescaped title)
    (htext : Unescaped text) (colour : Colour) :
    ∀ piece ∈ remark title colour text, Unescaped piece.text := by
  simp +decide [remark, Piece.plain, Piece.tinted, htitle, htext]

/-- Only the texts that a diagnostic shows can bring an escape character into its pieces. -/
theorem Diagnostic.unescaped_pieces {d : Diagnostic} {origin : Origin}
    (h : ∀ text ∈ d.texts ++ origin.texts, Unescaped text) :
    ∀ piece ∈ d.pieces origin, Unescaped piece.text := by
  obtain ⟨htexts, horigin⟩ := List.forall_mem_append.mp h
  obtain ⟨hmessage, htexts⟩ := List.forall_mem_cons.mp htexts
  obtain ⟨htexts, hsuggestions⟩ := List.forall_mem_append.mp htexts
  obtain ⟨hlabels, hnotes⟩ := List.forall_mem_append.mp htexts
  simp only [Diagnostic.pieces, List.forall_mem_append, List.forall_mem_flatMap]
  refine ⟨⟨⟨⟨?_, ?_⟩, ?_⟩, ?_⟩, ?_⟩
  · simp +decide [Piece.plain, Piece.tinted, d.code.unescaped_text, hmessage]
  · intro label hlabel
    exact Label.unescaped_pieces (hlabels _ (List.mem_map_of_mem hlabel)) horigin
  · intro note hnote
    exact unescaped_remark (by decide) (hnotes note hnote) .bold
  · intro suggestion hsuggestion
    exact unescaped_remark (by decide) (hsuggestions suggestion hsuggestion) .help
  · simp +decide

/-! ## Both forms -/

/-- A piece without its sequences is the piece without its colour, and so are all pieces together. -/
theorem withoutSequences_pieces {pieces : List Piece} (h : ∀ piece ∈ pieces, Unescaped piece.text) :
    withoutSequences (String.join (pieces.map (Piece.render true))).toList =
      (String.join (pieces.map (Piece.render false))).toList := by
  induction pieces with
  | nil => simp [withoutSequences]
  | cons piece pieces ih =>
    obtain ⟨hpiece, hpieces⟩ := List.forall_mem_cons.mp h
    obtain ⟨text, _ | colour⟩ := piece
    · simp only [List.map_cons, Piece.render, String.join_cons, String.toList_append,
        withoutSequences_append hpiece, ih hpieces]
    · simp only [List.map_cons, Piece.render, String.join_cons, String.toList_append, List.append_assoc,
        withoutSequences_start, withoutSequences_append hpiece, withoutSequences_reset, ih hpieces]

/-- **Colours add escape sequences and nothing else.** -/
theorem Diagnostic.render_withoutSequences {d : Diagnostic} {origin : Origin}
    (h : ∀ text ∈ d.texts ++ origin.texts, Unescaped text) (terminal terminal' : Bool) :
    withoutSequences (d.render (ColourMode.always.enabled terminal) origin).toList =
      (d.render (ColourMode.never.enabled terminal') origin).toList :=
  withoutSequences_pieces (Diagnostic.unescaped_pieces h)

/-- A separator is missing, in messages that look like parts of sequences. -/
def Diagnostic.bracketed : Diagnostic where
  code := .missingSeparator
  message := "[0m"
  labels := [⟨⟨2, 3⟩, "1;31m", true⟩, ⟨⟨0, 1⟩, "m", false⟩]
  notes := ["[1m"]

/-- What only looks like a sequence stays. -/
theorem Diagnostic.render_withoutSequences_bracketed :
    (∀ text ∈ bracketed.texts ++ Origin.texts ⟨some "a [", some "main.spl"⟩, Unescaped text) ∧
    withoutSequences (bracketed.render (ColourMode.always.enabled false)
        ⟨some "a [", some "main.spl"⟩).toList =
      ("error[E1003]: [0m\n  --> main.spl:1:3\n  |\n1 | a [\n  |   ^ 1;31m\n" ++
        "  ::: main.spl:1:1\n  |\n1 | a [\n  | - m\n  = note: [1m\n\n").toList :=
  ⟨by decide, (Diagnostic.render_withoutSequences (by decide) false false).trans (by decide +kernel)⟩

end SlotScript
