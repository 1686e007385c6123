import SlotScript.Proofs.Scope.Region
import SlotScript.Proofs.Tree.Bare
import SlotScript.Proofs.Tree.Conservation

/-!
# Trees up to places and numbers

Two trees that were built from the same words at different places differ in their spans, and in the
numbers that their functions without a name were given. `Change.shape` erases both. `Change.plug`
does so too and puts a tree in the place of a literal, so that a program with the literal is a
context for the tree.
-/

namespace SlotScript

/-- Every place becomes one place, and functions without a name get no number. -/
def Change.shape : Change where
  span _ := .nowhere
  literal text _ := .str text .nowhere
  name _ := ""
  count _ := 0
  numbering := .blank
  span_merge _ _ := rfl
  span_origin := rfl
  span_literal := Change.bare.span_literal
  name_counted _ := rfl
  count_zero := rfl
  count_succ _ := rfl

/-- The same, with the tree in the place of the literal. -/
def Change.plug (text : String) (tree : Node) : Change :=
  { Change.shape with
    literal := fun other _ => if other = text then tree.change .shape else .str other .nowhere
    span_literal := by
      intro other place
      split
      · exact Node.span_change .shape tree
      · rfl }

/-- What the builder looks into, it looks into whatever the places and numbers are. -/
theorem Node.isOpen_shape (node : Node) : (node.change .shape).isOpen = node.isOpen := by
  cases node with
  | assign target var decl op value span => cases decl <;> cases op <;> rfl
  | _ => rfl

theorem Change.solid_shape : Change.shape.Solid := fun _ _ => rfl

theorem Change.solid_plug {text : String} {tree : Node} (h : tree.isOpen = false) :
    (Change.plug text tree).Solid := by
  intro other place
  simp only [Change.plug]
  split
  · rw [Node.isOpen_shape, h]
  · rfl

theorem Change.keeps_shape (kind : TokenKind) : Change.shape.Keeps kind := fun _ _ _ => rfl

theorem Change.keeps_plug {text : String} {tree : Node} {kind : TokenKind}
    (h : kind ≠ .literal text) : (Change.plug text tree).Keeps kind := by
  intro other hkind place
  have hother : other ≠ text := by
    rintro rfl
    exact h hkind
  exact if_neg hother

/-! ## Literals of a tree -/

/-- The nodes right below a changed node are the changed nodes below it. -/
theorem Node.parts_change (c : Change) {node : Node} (h : ∀ text place, node ≠ .str text place) :
    (node.change c).parts.map Prod.snd = (node.parts.map Prod.snd).map (Node.change c) := by
  cases node with
  | str text place => exact absurd rfl (h text place)
  | branch cond yes no yesShape noShape span => cases no <;> simp [Node.change, Node.parts]
  | forLoop init cond step body header bodyShape span =>
    cases init <;> cases cond <;> cases step <;> simp [Node.change, Node.parts]
  | define name binding params body frame span =>
    have hdefaults : Param.defaults (params.map (Param.change c)) =
        (Param.defaults params).map (Node.change c) := by
      have hdefault : Param.default ∘ Param.change c =
          fun param => (Param.default param).map (Node.change c) := by
        funext param
        cases param
        simp [Param.change, Param.default]
      rw [Param.defaults, Param.defaults, List.filterMap_map, List.map_filterMap, hdefault]
    simp [Node.change, Node.parts, hdefaults]
  | ret value span => cases value <;> simp [Node.change, Node.parts]
  | _ => simp [Node.change, Node.parts]

theorem mem_readingAll {kind : TokenKind} {nodes : List Node} (h : kind ∈ readingAll nodes) :
    ∃ node ∈ nodes, kind ∈ node.reading := by
  induction nodes with
  | nil => simp [readingAll] at h
  | cons node rest ih =>
    rcases List.mem_append.mp h with hnode | hrest
    · exact ⟨node, List.mem_cons_self, hnode⟩
    · obtain ⟨other, hother, hkind⟩ := ih hrest
      exact ⟨other, List.mem_cons_of_mem _ hother, hkind⟩

theorem literal_mem_readingParams {text : String} {params : List Param}
    (h : .literal text ∈ readingParams params) :
    ∃ value ∈ Param.defaults params, .literal text ∈ value.reading := by
  induction params with
  | nil => simp [readingParams] at h
  | cons param rest ih =>
    rcases param with ⟨name, _ | value, span⟩
    · obtain ⟨value, hvalue, htext⟩ := ih (by simpa [readingParams, Param.reading, readingDefault] using h)
      exact ⟨value, by simpa [Param.defaults, Param.default] using hvalue, htext⟩
    · have h : .literal text ∈ value.reading ∨ .literal text ∈ readingParams rest := by
        simpa [readingParams, Param.reading, readingDefault] using h
      rcases h with hvalue | hrest
      · exact ⟨value, by simp [Param.defaults, Param.default], hvalue⟩
      · obtain ⟨other, hother, htext⟩ := ih hrest
        refine ⟨other, ?_, htext⟩
        rw [Param.defaults, List.filterMap_cons_some (by rfl)]
        exact List.mem_cons_of_mem _ hother

mutual

theorem mem_completed {kind : TokenKind} {kinds : List TokenKind} (h : kind ∈ kinds) :
    kind ∈ completed kinds := by
  match kinds, h with
  | first :: rest, h =>
    rw [completed]
    split
    · exact (List.mem_cons.mp h).elim (by simp_all) fun h => List.mem_cons_of_mem _ (mem_completedName h)
    · exact (List.mem_cons.mp h).elim (by simp_all) fun h => List.mem_cons_of_mem _ (mem_completed h)

theorem mem_completedName {kind : TokenKind} {kinds : List TokenKind} (h : kind ∈ kinds) :
    kind ∈ completedName kinds := by
  match kinds, h with
  | first :: rest, h =>
    rw [completedName]
    split
    · exact (List.mem_cons.mp h).elim (by simp_all) fun h => List.mem_cons_of_mem _ (mem_completed h)
    · refine (List.mem_cons.mp h).elim (by simp_all) fun h => ?_
      simp [mem_completed h]

end

/-- A literal leaves a trace. -/
theorem literal_mem_significant {text : String} {kinds : List TokenKind}
    (h : .literal text ∈ kinds) : .literal text ∈ significant kinds :=
  List.mem_flatMap.mpr ⟨.literal text, mem_completed h, by simp [TokenKind.reading]⟩

/-- A literal is read off a node that is the literal, or off a node right below it. -/
theorem Node.literal_mem_reading {text : String} {node : Node} (h : .literal text ∈ node.reading) :
    (∃ place, node = .str text place) ∨
      ∃ part ∈ node.parts.map Prod.snd, .literal text ∈ part.reading := by
  cases node with
  | str other place => exact Or.inl ⟨place, by simpa [reading, eq_comm] using h⟩
  | unary op operand span => exact Or.inr (by simpa [reading, parts] using h)
  | binary op left right span => exact Or.inr (by simpa [reading, parts] using h)
  | assign target var decl op value span =>
    refine Or.inr ?_
    cases decl <;> cases op <;>
      simpa [reading, parts, assignReading, assignSign, DeclKind.reading] using h
  | branch cond yes no yesShape noShape span =>
    cases no <;> exact Or.inr (by simpa [reading, parts, readingElse, or_assoc] using h)
  | whileLoop cond body header bodyShape span => exact Or.inr (by simpa [reading, parts] using h)
  | forLoop init cond step body header bodyShape span =>
    refine Or.inr ?_
    cases init <;> cases cond <;> cases step <;>
      simpa [reading, parts, readingOption, or_comm, or_assoc, or_left_comm] using h
  | define name binding params body frame span =>
    refine Or.inr ?_
    have h : .literal text ∈ readingParams params ∨ .literal text ∈ body.reading := by
      cases binding <;> simpa [reading, functionReading] using h
    rcases h with hparams | hbody
    · obtain ⟨value, hvalue, htext⟩ := literal_mem_readingParams hparams
      exact ⟨value, by simp [parts, hvalue], htext⟩
    · exact ⟨body, by simp [parts], hbody⟩
  | call callee args span =>
    refine Or.inr ?_
    rcases List.mem_append.mp h with hcallee | hargs
    · exact ⟨callee, by simp [parts], hcallee⟩
    · obtain ⟨arg, harg, htext⟩ := mem_readingAll hargs
      exact ⟨arg, by simp [parts, harg], htext⟩
  | block body span =>
    refine Or.inr ?_
    obtain ⟨node, hnode, htext⟩ := mem_readingAll (by simpa [reading] using h)
    exact ⟨node, by simp [parts, hnode], htext⟩
  | ret value span =>
    cases value with
    | none => simp [reading, readingOption] at h
    | some value => exact Or.inr (by simpa [reading, parts, readingOption] using h)
  | _ => simp [reading] at h

theorem Node.sizeOf_part {node part : Node} (h : part ∈ node.parts.map Prod.snd) :
    sizeOf part < sizeOf node := by
  have hlist : ∀ {nodes : List Node}, part ∈ nodes → sizeOf part < sizeOf nodes :=
    List.sizeOf_lt_of_mem
  cases node with
  | define name binding params body frame span =>
    have h : part = body ∨ part ∈ Param.defaults params := by simpa [parts] using h
    rcases h with rfl | hdefault
    · simp only [define.sizeOf_spec]
      omega
    · obtain ⟨param, hparam, hvalue⟩ := List.mem_filterMap.mp hdefault
      have hsize := List.sizeOf_lt_of_mem hparam
      rcases param with ⟨name, default, span⟩
      obtain rfl : default = some part := hvalue
      simp only [Param.mk.sizeOf_spec, Option.some.sizeOf_spec] at hsize
      simp only [define.sizeOf_spec]
      omega
  | call callee args span =>
    have h : part = callee ∨ part ∈ args := by simpa [parts] using h
    simp only [call.sizeOf_spec]
    rcases h with rfl | harg
    · omega
    · have := hlist harg
      omega
  | block body span =>
    have := hlist (show part ∈ body by simpa [parts] using h)
    simp only [block.sizeOf_spec]
    omega
  | branch cond yes no yesShape noShape span =>
    cases no <;> simp [parts] at h ⊢ <;> grind
  | forLoop init cond step body header bodyShape span =>
    cases init <;> cases cond <;> cases step <;> simp [parts] at h ⊢ <;> grind
  | ret value span =>
    cases value <;> simp [parts] at h ⊢
    grind
  | _ => simp [parts] at h <;> simp <;> grind

/-- Where a literal of the program was, the tree stands that it becomes. -/
theorem Node.occurs_literal (c : Change) {program : Program} {text : String} {node : Node}
    {chain : List Region} (hnode : program.Occurs chain (node.change c))
    (h : .literal text ∈ node.reading) :
    ∃ chain place, program.Occurs chain (c.literal text place) := by
  rcases node.literal_mem_reading h with ⟨place, rfl⟩ | ⟨part, hpart, htext⟩
  · exact ⟨chain, place, by simpa [Node.change] using hnode⟩
  · have hstr : ∀ text place, node ≠ .str text place := by
      rintro text place rfl
      simp [Node.parts] at hpart
    have hmem : part.change c ∈ (node.change c).parts.map Prod.snd := by
      rw [Node.parts_change c hstr]
      exact List.mem_map_of_mem hpart
    obtain ⟨⟨inner, sub⟩, hsub, rfl⟩ := List.mem_map.mp hmem
    have := Node.sizeOf_part hpart
    exact Node.occurs_literal c (.part hnode hsub) htext
termination_by sizeOf node

/-- A literal that is read stands somewhere in the program, and so does the tree that it becomes. -/
theorem Program.occurs_literal (c : Change) {tokens : List Token} {program : Program}
    {text : String} (h : Program.ofTokens tokens = .ok program)
    (hmem : .literal text ∈ (tokens.takeWhile (·.kind ≠ .eof)).map Token.kind) :
    ∃ chain place, (program.change c).Occurs chain (c.literal text place) := by
  obtain ⟨b, hb, hfinish⟩ := bind_eq_ok_iff.mp h
  have heof : ∀ token ∈ tokens.takeWhile (·.kind ≠ .eof), token.kind ≠ .eof := by
    intro token htoken
    simpa using List.all_eq_true.mp List.all_takeWhile token htoken
  have hreading : .literal text ∈ program.reading := by
    rw [Builder.foldlM_feed_reading heof hb hfinish]
    exact literal_mem_significant hmem
  obtain ⟨node, hnode, htext⟩ := mem_readingAll hreading
  exact Node.occurs_literal c (.statement (List.mem_map_of_mem hnode)) htext

end SlotScript
