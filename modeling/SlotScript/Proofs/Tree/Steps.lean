import SlotScript.Tree.Builder
import SlotScript.Proofs.Result

/-!
# What the steps of the builder come to

The facts about single steps that the proofs about whole programs share: which word has which
role, what it means that an expression, a statement or a part could be closed, and how the levels
of a builder are reached and replaced.
-/

namespace SlotScript

/-! ## Words and their roles -/

namespace Role

/-- How a word that is tied to no role is spelled. -/
def Spelled (text : String) : Role → Prop
  | .unary op => text = op.symbol
  | .binary op => text = op.symbol
  | .compound op => text = op.compoundSymbol
  | .name => isIdentifier text = true
  | .unsupported | .unknown => True
  | _ => False

/-- A word is tied to its role, or it is spelled as its role asks. -/
theorem spelled_ofWord (text : String) :
    (text, ofWord text) ∈ fixed ∨ fixed.lookup text = none ∧ (ofWord text).Spelled text := by
  unfold ofWord
  cases hfixed : fixed.lookup text with
  | some role =>
    obtain ⟨before, after, heq, -⟩ := List.lookup_eq_some_iff.mp hfixed
    exact Or.inl (by simp [heq])
  | none =>
    refine Or.inr ⟨rfl, ?_⟩
    by_cases hreserved : isReserved text = true
    · simp [hreserved, Spelled]
    · simp only [if_neg hreserved]
      split
      · rename_i op hunary
        unfold UnaryOp.ofSymbol? at hunary
        obtain ⟨htext, rfl⟩ : text = UnaryOp.not.symbol ∧ UnaryOp.not = op := by simpa using hunary
        exact htext
      · rename_i op hunary hbinary
        exact (by simpa using List.find?_some hbinary : op.symbol = text).symm
      · rename_i op hunary hbinary hcompound
        exact (by simpa using List.find?_some hcompound : op.compoundSymbol = text).symm
      · split
        · assumption
        · trivial

/-- No word that is tied to a role can name a variable. -/
theorem lookup_of_isIdentifier {name : String} (h : isIdentifier name = true) :
    fixed.lookup name = none := by
  have hfixed : ∀ entry ∈ fixed, isIdentifier entry.1 = false := by decide
  refine List.lookup_eq_none_iff.mpr fun entry hentry => ?_
  rw [bne_iff_ne]
  rintro rfl
  rw [hfixed entry hentry] at h
  cases h

end Role

/-! ## Closing expressions, statements and parts -/

namespace Line

theorem takeOne_eq_ok {missing : Missing} {span : Span} {nodes : List Node} {node : Node}
    (h : takeOne missing span nodes = .ok node) : nodes = [node] := by
  rcases nodes with _ | ⟨first, _ | ⟨second, rest⟩⟩
  · cases h
  · cases h
    rfl
  · cases h

end Line

namespace Level

variable {level after : Level}

theorem closeExpression_eq_ok (h : level.closeExpression = .ok after) :
    level.run = [] ∧ after = level ∨
      ∃ node, Run.assemble level.run.reverse = .ok node ∧
        after = { level with run := [], items := .node node :: level.items } := by
  rcases level with ⟨_ | ⟨item, run⟩, items, lines, parts, groups⟩
  · cases h
    exact Or.inl ⟨rfl, rfl⟩
  · obtain ⟨node, hnode, hafter⟩ := bind_eq_ok_iff.mp h
    exact Or.inr ⟨node, hnode, (pure_eq_ok_iff.mp hafter).symm⟩

theorem closeExpression_run (h : level.closeExpression = .ok after) : after.run = [] := by
  rcases closeExpression_eq_ok h with ⟨hrun, rfl⟩ | ⟨node, -, rfl⟩
  · exact hrun
  · rfl

theorem closeExpression_parts (h : level.closeExpression = .ok after) :
    after.parts = level.parts := by
  rcases closeExpression_eq_ok h with ⟨-, rfl⟩ | ⟨node, -, rfl⟩ <;> rfl

theorem closeExpression_lines (h : level.closeExpression = .ok after) :
    after.lines = level.lines := by
  rcases closeExpression_eq_ok h with ⟨-, rfl⟩ | ⟨node, -, rfl⟩ <;> rfl

theorem closeLine_eq_ok (h : level.closeLine = .ok after) :
    ∃ closed line, level.closeExpression = .ok closed ∧ Line.weld closed.items = .ok line ∧
      after = { closed with items := [], lines := line.toList ++ closed.lines } := by
  obtain ⟨closed, hclosed, h⟩ := bind_eq_ok_iff.mp h
  obtain ⟨line, hline, hafter⟩ := bind_eq_ok_iff.mp h
  exact ⟨closed, line, hclosed, hline, (pure_eq_ok_iff.mp hafter).symm⟩

theorem closeLine_empty (h : level.closeLine = .ok after) : after.run = [] ∧ after.items = [] := by
  obtain ⟨closed, line, hclosed, -, rfl⟩ := closeLine_eq_ok h
  have hrun : closed.run = [] := closeExpression_run hclosed
  exact ⟨hrun, rfl⟩

theorem closeLine_parts (h : level.closeLine = .ok after) : after.parts = level.parts := by
  obtain ⟨closed, line, hclosed, -, rfl⟩ := closeLine_eq_ok h
  have hparts : closed.parts = level.parts := closeExpression_parts hclosed
  exact hparts

theorem partOfLines_eq_ok {lines : List Node} {part : Option Node}
    (h : partOfLines lines = .ok part) : lines = part.toList := by
  rcases lines with _ | ⟨first, _ | ⟨second, rest⟩⟩
  · cases h
    rfl
  · cases h
    rfl
  · cases h

theorem closePart_eq_ok (h : level.closePart = .ok after) :
    ∃ closed part, level.closeLine = .ok closed ∧ closed.lines.reverse = part.toList ∧
      after = { closed with lines := [], parts := part :: closed.parts } := by
  obtain ⟨closed, hclosed, h⟩ := bind_eq_ok_iff.mp h
  obtain ⟨part, hpart, hafter⟩ := bind_eq_ok_iff.mp h
  exact ⟨closed, part, hclosed, partOfLines_eq_ok hpart, (pure_eq_ok_iff.mp hafter).symm⟩

theorem closePart_empty (h : level.closePart = .ok after) :
    after.run = [] ∧ after.items = [] ∧ after.lines = [] := by
  obtain ⟨closed, part, hclosed, -, rfl⟩ := closePart_eq_ok h
  obtain ⟨hrun, hitems⟩ : closed.run = [] ∧ closed.items = [] := closeLine_empty hclosed
  exact ⟨hrun, hitems, rfl⟩

/-- The node of a part that has to be there. -/
def givenPart (missing : Missing) (close : Span) : Option Node → Except BuildError Node
  | some node => .ok node
  | none => .error { fault := .expected missing, span := close }

theorem listParts_eq_mapM (missing : Missing) (close : Span) {parts : List (Option Node)}
    (h : parts ≠ [none]) : listParts missing close parts = parts.mapM (givenPart missing close) := by
  unfold listParts
  split
  · exact absurd rfl h
  · rfl

theorem listParts_eq_ok {missing : Missing} {close : Span} {parts : List (Option Node)}
    {nodes : List Node} (h : listParts missing close parts = .ok nodes) :
    parts = [none] ∧ nodes = [] ∨ parts = nodes.map some := by
  by_cases hnone : parts = [none]
  · subst hnone
    cases h
    exact Or.inl ⟨rfl, rfl⟩
  · refine Or.inr ?_
    rw [listParts_eq_mapM missing close hnone] at h
    clear hnone
    induction parts generalizing nodes with
    | nil =>
      cases h
      rfl
    | cons part rest ih =>
      rw [List.mapM_cons] at h
      obtain ⟨node, hnode, h⟩ := bind_eq_ok_iff.mp h
      obtain ⟨others, hothers, h⟩ := bind_eq_ok_iff.mp h
      obtain rfl := pure_eq_ok_iff.mp h
      cases part with
      | none => cases hnode
      | some part =>
        cases hnode
        rw [List.map_cons, ih hothers]

end Level

/-! ## Levels of a builder -/

namespace Builder

variable (b : Builder) (level : Level)

@[simp] theorem level_setLevel : (b.setLevel level).level = level := by
  rcases b with ⟨root, _ | ⟨frame, outer⟩, expectation, previous, anonymous⟩ <;> rfl

@[simp] theorem expectation_setLevel : (b.setLevel level).expectation = b.expectation := by
  rcases b with ⟨root, _ | ⟨frame, outer⟩, expectation, previous, anonymous⟩ <;> rfl

@[simp] theorem previous_setLevel : (b.setLevel level).previous = b.previous := by
  rcases b with ⟨root, _ | ⟨frame, outer⟩, expectation, previous, anonymous⟩ <;> rfl

@[simp] theorem anonymous_setLevel : (b.setLevel level).anonymous = b.anonymous := by
  rcases b with ⟨root, _ | ⟨frame, outer⟩, expectation, previous, anonymous⟩ <;> rfl

@[simp] theorem setLevel_level : b.setLevel b.level = b := by
  rcases b with ⟨root, _ | ⟨frame, outer⟩, expectation, previous, anonymous⟩ <;> rfl

@[simp] theorem previous_mapLevel (f : Level → Level) : (b.mapLevel f).previous = b.previous :=
  b.previous_setLevel (f b.level)

@[simp] theorem anonymous_mapLevel (f : Level → Level) :
    (b.mapLevel f).anonymous = b.anonymous :=
  b.anonymous_setLevel (f b.level)

@[simp] theorem expectation_mapLevel (f : Level → Level) :
    (b.mapLevel f).expectation = b.expectation :=
  b.expectation_setLevel (f b.level)

@[simp] theorem expectation_expect (expectation : Expectation) :
    (b.expect expectation).expectation = expectation := rfl

@[simp] theorem level_expect (expectation : Expectation) :
    (b.expect expectation).level = b.level := rfl

theorem tryLevel_eq_ok {b b' : Builder} {f : Level → Except BuildError Level}
    (h : b.tryLevel f = .ok b') : ∃ level, f b.level = .ok level ∧ b' = b.setLevel level := by
  obtain ⟨level, hlevel, hb⟩ := bind_eq_ok_iff.mp h
  exact ⟨level, hlevel, (pure_eq_ok_iff.mp hb).symm⟩

end Builder

end SlotScript
