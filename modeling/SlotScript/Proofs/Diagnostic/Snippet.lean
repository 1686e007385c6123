import SlotScript.Diagnostic.Terminal
import SlotScript.Proofs.Diagnostic.Position

/-!
# Underlines

Under a label the terminal form of a diagnostic shows a line of source, and below it markers.

**Theorem (`Diagnostic.render_underlined`).** If the label's span lies in one line, that line is shown, and
the markers start below the first character of the span. There are as many of them as the span has bytes,
or one if it has none. So there is one for each character just if all characters of the span are ASCII.

The line and its text are found in different ways: the number by counting line feeds before the span, the
text by cutting the source into lines.
-/

namespace SlotScript

/-- The source has this line. It starts the source or follows a line feed, and it is followed by a line
feed, by a carriage return and a line feed, or by nothing. -/
structure HasLine (source above line below : List Char) : Prop where
  split : source = above ++ (line ++ below)
  starts : ∀ c ∈ above.getLast?, c = '\n'
  inner : '\n' ∉ line
  ends : below = [] ∨ (∃ rest, below = '\n' :: rest) ∧ line.getLast? ≠ some '\r' ∨
    ∃ rest, below = '\r' :: '\n' :: rest

/-- A line of source with its number, and markers below the part of it that comes after `indent`
characters. -/
def underlined (number : Nat) (line : List Char) (indent : Nat) (markers : String) : String :=
  let gutter := repeated (toString number).length ' '
  gutter ++ " |\n" ++ (toString number ++ " | " ++ String.ofList line ++ "\n") ++
    (gutter ++ " | " ++ repeated indent ' ') ++ markers ++ " "

/-! ## Lines -/

namespace linesOf

theorem go_cons {c : Char} (hc : c ≠ '\n') (current rest : List Char) :
    go current (c :: rest) = go (c :: current) rest := by
  rcases current with _ | ⟨d, current⟩
  · simp [go, hc]
  · by_cases hd : d = '\r' <;> simp [go, hc]

/-- A line ends at a line feed. -/
theorem go_newline {current : List Char} (hcurrent : current.head? ≠ some '\r') (rest : List Char) :
    go current ('\n' :: rest) = current.reverse :: go [] rest := by
  rcases current with _ | ⟨d, current⟩
  · simp [go]
  · have hd : d ≠ '\r' := by simpa using hcurrent
    simp [go, hd]

/-- A carriage return before the line feed does not belong to the line. -/
theorem go_return (current rest : List Char) :
    go ('\r' :: current) ('\n' :: rest) = current.reverse :: go [] rest := by
  simp [go]

theorem go_append {line : List Char} (hline : '\n' ∉ line) (current rest : List Char) :
    go current (line ++ rest) = go (line.reverse ++ current) rest := by
  induction line generalizing current with
  | nil => rfl
  | cons c line ih =>
    obtain ⟨hc, hline⟩ : '\n' ≠ c ∧ '\n' ∉ line := by simpa [not_or] using hline
    rw [List.cons_append, go_cons hc.symm, ih hline]
    simp

/-- A line feed ends a line, which has no characters but those read since the last one. -/
theorem exists_go_newline (current rest : List Char) :
    ∃ line, go current ('\n' :: rest) = line :: go [] rest ∧ line ⊆ current := by
  by_cases hcurrent : current.head? = some '\r'
  · obtain ⟨before, rfl⟩ := List.head?_eq_some_iff.mp hcurrent
    exact ⟨_, go_return before rest, fun c hc => List.mem_cons_of_mem _ (List.mem_reverse.mp hc)⟩
  · exact ⟨_, go_newline hcurrent rest, fun c hc => List.mem_reverse.mp hc⟩

/-- A text that ends with a line feed has as many lines as it has line feeds. -/
theorem go_feed (text current rest : List Char) :
    ∃ lines, go current (text ++ '\n' :: rest) = lines ++ go [] rest ∧
      lines.length = text.count '\n' + 1 := by
  induction text generalizing current with
  | nil =>
    obtain ⟨line, hline, -⟩ := exists_go_newline current rest
    exact ⟨[line], hline, by simp⟩
  | cons c text ih =>
    by_cases hc : c = '\n'
    · subst hc
      obtain ⟨line, hline, -⟩ := exists_go_newline current (text ++ '\n' :: rest)
      obtain ⟨lines, hlines, hlength⟩ := ih []
      exact ⟨line :: lines, by rw [List.cons_append, hline, hlines, List.cons_append],
        by simp [hlength]⟩
    · obtain ⟨lines, hlines, hlength⟩ := ih (c :: current)
      exact ⟨lines, by rw [List.cons_append, go_cons hc, hlines], by simp [hlength, hc]⟩

/-- The first line of what starts with a line. -/
theorem go_line {line below : List Char} (hline : '\n' ∉ line)
    (hends : below = [] ∨ (∃ rest, below = '\n' :: rest) ∧ line.getLast? ≠ some '\r' ∨
      ∃ rest, below = '\r' :: '\n' :: rest) :
    (go [] (line ++ below))[0]?.getD [] = line := by
  rw [go_append hline, List.append_nil]
  rcases hends with rfl | ⟨⟨rest, rfl⟩, hlast⟩ | ⟨rest, rfl⟩
  · rw [go]
    split
    · rename_i hempty
      have hnil : line = [] := by simpa using hempty
      rw [hnil]
      rfl
    · simp
  · rw [go_newline (by rwa [List.head?_reverse])]
    simp
  · rw [go_cons (by decide), go_return]
    simp

end linesOf

namespace HasLine

variable {source above line below : List Char}

/-- The line is found by its number. -/
theorem linesOf_getElem (h : HasLine source above line below) :
    (linesOf source)[above.count '\n']?.getD [] = line := by
  obtain ⟨rfl, hstarts, hinner, hends⟩ := h
  rcases List.eq_nil_or_concat above with rfl | ⟨text, c, rfl⟩
  · exact linesOf.go_line hinner hends
  · obtain rfl : c = '\n' := hstarts c (by simp)
    obtain ⟨lines, hlines, hlength⟩ := linesOf.go_feed text [] (line ++ below)
    have hcount : (text.concat '\n').count '\n' = lines.length := by simp [hlength]
    have hsource : text.concat '\n' ++ (line ++ below) = text ++ '\n' :: (line ++ below) := by simp
    rw [hsource, linesOf, hlines, hcount, List.getElem?_append_right (Nat.le_refl _), Nat.sub_self]
    exact linesOf.go_line hinner hends

/-- Where a span that lies in the line starts. -/
theorem lineColumn {front rest : List Char} (h : HasLine source above (front ++ rest) below)
    (stop : Nat) :
    Span.lineColumn ⟨byteSize (above ++ front), stop⟩ source =
      (above.count '\n' + 1, front.length + 1) := by
  obtain ⟨rfl, hstarts, hinner, -⟩ := h
  have hfront : '\n' ∉ front := fun hmem => hinner (List.mem_append_left rest hmem)
  have hsource : above ++ (front ++ rest ++ below) = (above ++ front) ++ (rest ++ below) := by simp
  rw [hsource, Span.lineColumn_append, Span.lineColumnAfter_append hstarts hfront]

end HasLine

/-! ## Bytes and characters -/

/-- A text has as many bytes as characters just if each of them takes one. -/
theorem byteSize_eq_length_iff {text : List Char} :
    byteSize text = text.length ↔ ∀ c ∈ text, c.utf8Size = 1 := by
  induction text with
  | nil => simp [byteSize]
  | cons c text ih =>
    have hpos := c.utf8Size_pos
    have hle := length_le_byteSize text
    rw [List.forall_mem_cons, ← ih, byteSize, List.length_cons]
    omega

/-! ## Snippets -/

section

variable {source above front marked back below : List Char} {label : Label}
  (hline : HasLine source above (front ++ (marked ++ back)) below)
  (hspan : label.span = ⟨byteSize (above ++ front), byteSize (above ++ front) + byteSize marked⟩)

include hline hspan

/-- The snippet of a label in one line. -/
theorem Label.snippet_underlined (coloured : Bool) :
    String.join ((label.snippet source).map (Piece.render coloured)) =
      underlined (above.count '\n' + 1) (front ++ (marked ++ back)) front.length
        ((Piece.tinted label.colour (repeated (max (byteSize marked) 1) label.underline)).render
          coloured) := by
  have hplace := hline.lineColumn (byteSize (above ++ front) + byteSize marked)
  have hsize : label.span.size = byteSize marked := by
    rw [hspan, Span.size, Nat.add_sub_cancel_left]
  rw [← hspan] at hplace
  simp only [Label.snippet, hplace, hsize, Nat.add_sub_cancel, hline.linesOf_getElem]
  simp [String.join, underlined, Piece.render, Piece.plain]

end

/-- The snippet of a label is a part of what is shown of the diagnostic. -/
theorem Diagnostic.snippet_infix {d : Diagnostic} {label : Label} (hlabel : label ∈ d.labels)
    (source : String) (path : Option String) :
    label.snippet source.toList <:+: d.pieces ⟨some source, path⟩ := by
  obtain ⟨before, after, hlabels⟩ := List.append_of_mem hlabel
  have hlabel : label.snippet source.toList <:+: label.pieces ⟨some source, path⟩ :=
    ⟨[_], [_, _], rfl⟩
  have hlabels : label.pieces ⟨some source, path⟩ <:+: d.labels.flatMap (·.pieces ⟨some source, path⟩) := by
    rw [hlabels, List.flatMap_append, List.flatMap_cons, ← List.append_assoc]
    exact List.infix_append _ _ _
  have hall : d.labels.flatMap (·.pieces ⟨some source, path⟩) <:+: d.pieces ⟨some source, path⟩ := by
    rw [Diagnostic.pieces, List.append_assoc, List.append_assoc]
    exact List.infix_append _ _ _
  exact hlabel.trans (hlabels.trans hall)

/-- **Markers stand below the text of a label.** -/
theorem Diagnostic.render_underlined {source : String} {above front marked back below : List Char}
    (hline : HasLine source.toList above (front ++ (marked ++ back)) below) {d : Diagnostic}
    {label : Label} (hlabel : label ∈ d.labels)
    (hspan : label.span = ⟨byteSize (above ++ front), byteSize (above ++ front) + byteSize marked⟩)
    (coloured : Bool) (path : Option String) :
    (underlined (above.count '\n' + 1) (front ++ (marked ++ back)) front.length
      ((Piece.tinted label.colour (repeated (max (byteSize marked) 1) label.underline)).render
        coloured)).toList <:+: (d.render coloured ⟨some source, path⟩).toList ∧
    (max (byteSize marked) 1 = max marked.length 1 ↔ ∀ c ∈ marked, c.utf8Size = 1) := by
  constructor
  · obtain ⟨before, after, hpieces⟩ := Diagnostic.snippet_infix hlabel source path
    rw [← Label.snippet_underlined hline hspan, Diagnostic.render, ← hpieces]
    exact ⟨(String.join (before.map (Piece.render coloured))).toList,
      (String.join (after.map (Piece.render coloured))).toList, by simp⟩
  · rw [← byteSize_eq_length_iff]
    have hle := length_le_byteSize marked
    cases marked with
    | nil => simp [byteSize]
    | cons c rest =>
      rw [List.length_cons] at hle ⊢
      omega

/-- The second line of a source with carriage returns, with a letter of two bytes before the span. -/
theorem Diagnostic.render_underlined_return :
    HasLine "x = 1;\r\ny = \x27é\x27 z\r\n".toList "x = 1;\r\n".toList
      ("y = \x27é\x27 ".toList ++ (['z'] ++ [])) "\r\n".toList ∧
    (underlined 2 "y = \x27é\x27 z".toList 8 "^").toList <:+:
      (Diagnostic.render { code := .missingSeparator, labels := [⟨⟨17, 18⟩, "here", true⟩] } false
        ⟨some "x = 1;\r\ny = \x27é\x27 z\r\n", some "main.spl"⟩).toList := by
  have hline : HasLine "x = 1;\r\ny = \x27é\x27 z\r\n".toList "x = 1;\r\n".toList
      ("y = \x27é\x27 ".toList ++ (['z'] ++ [])) "\r\n".toList :=
    ⟨by decide, by rintro c ⟨⟩; rfl, by decide, Or.inr (Or.inr ⟨[], by decide⟩)⟩
  have hlabel : (⟨⟨17, 18⟩, "here", true⟩ : Label) ∈ [(⟨⟨17, 18⟩, "here", true⟩ : Label)] := by simp
  obtain ⟨hshown, -⟩ := Diagnostic.render_underlined hline
    (d := { code := .missingSeparator, labels := [⟨⟨17, 18⟩, "here", true⟩] }) hlabel (by decide) false
    (some "main.spl")
  exact ⟨hline, hshown⟩

/-- The only character of `é` takes two bytes, so two markers stand below it and not one. -/
theorem Diagnostic.render_underlined_letter :
    Token.scan "é" = .error ⟨.unknownCharacter 'é', ⟨0, 2⟩⟩ ∧
    HasLine "é".toList [] ['é'] [] ∧
    ((ScanError.toDiagnostic ⟨.unknownCharacter 'é', ⟨0, 2⟩⟩).render false
      ⟨some "é", some "main.spl"⟩) =
        "error[E0001]: unknown character `é`\n  --> main.spl:1:1\n  |\n1 | é\n  | ^^ here\n\n" ∧
    ¬ (underlined 1 ['é'] 0 (repeated (max ['é'].length 1) '^')).toList <:+:
      ((ScanError.toDiagnostic ⟨.unknownCharacter 'é', ⟨0, 2⟩⟩).render false
        ⟨some "é", some "main.spl"⟩).toList := by
  refine ⟨rfl, ⟨by decide, nofun, by decide, Or.inl rfl⟩, by decide +kernel, ?_⟩
  decide +kernel

end SlotScript
