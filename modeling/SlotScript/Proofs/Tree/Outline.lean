import SlotScript.Proofs.Machine.Address
import SlotScript.Proofs.Tree.Look

/-!
# The outline of a program determines it

The outline of a program is all that its tests see. It shows names with their places, literals and
operators, but no shapes of scopes, no spans, and not whether an occurrence declares its name.

**Theorem (`Program.bare_eq_of_outline`).** Two programs that compile and have the same outline are the
same but for their spans.

An outline can be read from the left in one way only. So it determines the tree up to spans, places and
shapes (`Node.Plain.unique`): the start of a node tells what it is, and its parts end at a blank or at
something that closes. A `-` with one operand is told from one with two by what comes after the operand. The
rest was made by the resolver, from this part of the tree alone (`Program.resolve_skeleton`).
-/

namespace SlotScript

/-- All names in the node are names, their places are known, and doubles have no sign. -/
def Node.Plain (node : Node) : Prop := node.Everywhere fun node => node.OwnLegible ∧ node.Placed

/-! ## Nodes -/

/-- Read from the left, the outline of the node determines it, and where it ends. -/
def Node.Unique (node : Node) : Prop :=
  ∀ (node' : Node) (rest rest' : List Char), node'.Plain → Stops rest → Stops rest' →
    node.outline.toList ++ rest = node'.outline.toList ++ rest' → node.skeleton = node'.skeleton ∧ rest = rest'

namespace Node

variable {node node' : Node} {rest rest' : List Char}

theorem Plain.own (h : node.Plain) : node.OwnLegible := (everywhere_iff.mp h).1.1

theorem Plain.placed (h : node.Plain) : node.Placed := (everywhere_iff.mp h).1.2

theorem Plain.part (h : node.Plain) {part : Node} (hpart : part ∈ node.parts.map Prod.snd) : part.Plain :=
  (everywhere_iff.mp h).2 part hpart

theorem Plain.proper (h : node.Plain) : node.look.Proper := proper_look h.own h.placed

theorem Plain.agree (h : node.Plain) (h' : node'.Plain) (hrest : Stops rest) (hrest' : Stops rest')
    (htext : node.outline.toList ++ rest = node'.outline.toList ++ rest') :
    Look.Agree rest rest' node.look node'.look := by
  rw [← text_look h.placed, ← text_look h'.placed] at htext
  exact Look.unique h.proper h'.proper hrest hrest' htext

/-- No node starts with what closes something. -/
theorem Plain.exists_start (h : node.Plain) {close : Char} (hclose : close ∈ [' ', ')', ';', '\x7d']) :
    ∃ c more, node.outline.toList = c :: more ∧ c ≠ close := by
  obtain ⟨c, more, hmore, hopening⟩ := h.proper.opening
  rw [text_look h.placed] at hmore
  refine ⟨c, more, hmore, ?_⟩
  rintro rfl
  have hstops : Stops [c] := stops_cons hclose
  rw [hstops.not_isWordChar c rfl] at hopening
  cases hlook : node.look with
  | word =>
    rw [hlook] at hopening
    cases hopening
  | _ =>
    rw [hlook] at hopening
    cases hopening
    simp at hclose

/-- A node that has the same head is a list of the same kind. -/
theorem Unique.of_form {head : Head} {body : List Char} (h : node.Plain) (hlook : node.look = .form head body)
    (hunique : ∀ {node' : Node} {body' rest rest' : List Char}, node'.Plain → node'.look = .form head body' →
      body ++ rest = body' ++ rest' → node.skeleton = node'.skeleton ∧ rest = rest') : node.Unique := by
  intro node' rest rest' h' hrest hrest' htext
  have hagree := h.agree h' hrest hrest' htext
  rw [hlook] at hagree
  cases hlook' : node'.look with
  | form head' body' =>
    rw [hlook'] at hagree
    obtain ⟨rfl, hbody⟩ := hagree
    exact hunique h' hlook' hbody
  | _ =>
    rw [hlook'] at hagree
    exact hagree.elim

/-- A node and the character behind it can be read back. -/
theorem Unique.step (h : node.Unique) (h' : node'.Plain) {c c' : Char} (hc : c ∈ [' ', ')', ';', '\x7d'])
    (hc' : c' ∈ [' ', ')', ';', '\x7d'])
    (htext : node.outline.toList ++ c :: rest = node'.outline.toList ++ c' :: rest') :
    node.skeleton = node'.skeleton ∧ c = c' ∧ rest = rest' := by
  obtain ⟨hnode, htail⟩ := h node' _ _ h' (stops_cons hc) (stops_cons hc') htext
  exact ⟨hnode, List.cons.inj htail⟩

theorem apart_of_unique {nodes nodes' : List Node} (h : ∀ node ∈ nodes, node.Unique)
    (h' : ∀ node ∈ nodes', node.Plain) : Apart (fun node => node.outline.toList) skeleton nodes nodes' :=
  fun node hnode node' hnode' rest rest' => h node hnode node' rest rest' (h' node' hnode')

theorem unique_args {args args' : List Node} (h : ∀ arg ∈ args, arg.Unique) (h' : ∀ arg ∈ args', arg.Plain)
    (htext : (outlineArgs args).toList ++ ')' :: rest = (outlineArgs args').toList ++ ')' :: rest') :
    args.map skeleton = args'.map skeleton ∧ rest = rest' := by
  rw [toList_outlineArgs, toList_outlineArgs] at htext
  obtain ⟨hargs, htail⟩ := led_unique (apart_of_unique h h') (by decide) (by decide) (by decide) closes_cons
    closes_cons htext
  exact ⟨hargs, (List.cons.inj htail).2⟩

theorem stops_args (args : List Node) : Stops ((outlineArgs args).toList ++ ')' :: rest) := by
  rw [toList_outlineArgs]
  exact stops_led (by decide) (stops_cons (by decide))

theorem unique_lines {nodes nodes' : List Node} (hplain : ∀ node ∈ nodes, node.Plain)
    (h : ∀ node ∈ nodes, node.Unique) (h' : ∀ node ∈ nodes', node.Plain) (hrest : Closes '\x7d' rest)
    (hrest' : Closes '\x7d' rest')
    (htext : (outlineLines nodes).toList ++ rest = (outlineLines nodes').toList ++ rest') :
    nodes.map skeleton = nodes'.map skeleton ∧ rest = rest' := by
  rw [toList_outlineLines, toList_outlineLines] at htext
  refine joined_unique (apart_of_unique h h') ?_ (by decide) (by decide) (by decide) hrest hrest' htext
  intro node hnode
  rcases List.mem_append.mp hnode with hnode | hnode
  · exact (hplain node hnode).exists_start (by decide)
  · exact (h' node hnode).exists_start (by decide)

/-- The sign for a missing part is not a node. -/
theorem Plain.ne_missing (h : node.Plain) (hrest : Stops rest) (hrest' : Stops rest') :
    node.outline.toList ++ rest ≠ '_' :: rest' := by
  intro htext
  rw [← text_look h.placed] at htext
  have hproper : (Look.word ['_'] none).Proper := ⟨by simp, by simp [isWordChar, continuesName, startsName], by simp⟩
  have hagree : Look.Agree rest rest' node.look (.word ['_'] none) :=
    Look.unique h.proper hproper hrest hrest' htext
  cases hlook : node.look with
  | word word place =>
    rw [hlook] at hagree
    obtain ⟨⟨rfl, rfl⟩, -⟩ := hagree
    obtain ⟨kind, hstands⟩ := standsFor h.own hlook
    obtain rfl : .other = kind := hstands.kind_eq
    cases hstands with
    | constant hmem => simp [constants] at hmem
  | _ =>
    rw [hlook] at hagree
    exact hagree.elim

theorem unique_option {part part' : Option Node} (hplain : ∀ node ∈ part, node.Plain)
    (h : ∀ node ∈ part, node.Unique) (h' : ∀ node ∈ part', node.Plain)
    (htext : (outlineOption part).toList ++ ' ' :: rest = (outlineOption part').toList ++ ' ' :: rest') :
    part.map skeleton = part'.map skeleton ∧ rest = rest' := by
  have hblank : ∀ {rest}, Stops (' ' :: rest) := stops_cons (by decide)
  cases part with
  | none =>
    cases part' with
    | none => exact ⟨rfl, (List.cons.inj (List.append_cancel_left htext)).2⟩
    | some node' => exact absurd htext.symm ((h' node' rfl).ne_missing hblank hblank)
  | some node =>
    cases part' with
    | none => exact absurd htext ((hplain node rfl).ne_missing hblank hblank)
    | some node' =>
      obtain ⟨hnode, -, hrest⟩ := (h node rfl).step (h' node' rfl) (by decide) (by decide) htext
      exact ⟨congrArg some hnode, hrest⟩

end Node

/-! ## Parameters -/

/-- The default of a parameter, if there is one. -/
def defaultText : Option Node → List Char
  | none => []
  | some value => '=' :: value.outline.toList

namespace Param

variable {rest rest' : List Char}

theorem toList_outline (param : Param) :
    param.outline.toList = param.name.toList ++ defaultText param.default := by
  obtain ⟨name, value, span⟩ := param
  cases value <;> simp [outline, Param.name, default, defaultText]

theorem exists_start {param : Param} (h : IsName param.name) {close : Char}
    (hclose : close ∈ [' ', ')', ';', '\x7d']) : ∃ c more, param.outline.toList = c :: more ∧ c ≠ close := by
  obtain ⟨c, hc, -⟩ := h.head
  obtain ⟨more, hmore⟩ : ∃ more, param.name.toList = c :: more := List.head?_eq_some_iff.mp hc
  refine ⟨c, more ++ defaultText param.default, by rw [toList_outline, hmore, List.cons_append], ?_⟩
  rintro rfl
  have hstops : Stops [c] := stops_cons hclose
  have hword := h.isWordChar c (by simp [hmore])
  rw [hstops.not_isWordChar c rfl] at hword
  cases hword

/-- A parameter can be read back if its default can. -/
theorem unique {param param' : Param} (hname : IsName param.name) (hname' : IsName param'.name)
    (h : ∀ value ∈ param.default, value.Unique) (h' : ∀ value ∈ param'.default, value.Plain)
    (hrest : Stops rest) (hrest' : Stops rest')
    (htext : param.outline.toList ++ rest = param'.outline.toList ++ rest') :
    param.skeleton = param'.skeleton ∧ rest = rest' := by
  have hends : ∀ {value rest}, Stops rest → ∀ c ∈ (defaultText value ++ rest).head?, isWordChar c = false := by
    intro value rest hrest
    cases value with
    | none => exact hrest.not_isWordChar
    | some value =>
      rintro c ⟨⟩
      rfl
  have hequals : ∀ {rest}, ¬ Stops ('=' :: rest) := by
    intro rest hstops
    have hmem := hstops '=' rfl
    simp at hmem
  rw [toList_outline, toList_outline, List.append_assoc, List.append_assoc] at htext
  obtain ⟨heq, htail⟩ := append_unique hname.isWordChar hname'.isWordChar (hends hrest) (hends hrest') htext
  rw [skeleton, skeleton, String.toList_inj.mp heq]
  generalize param.default = value at *
  generalize param'.default = value' at *
  cases value with
  | none =>
    cases value' with
    | none => exact ⟨rfl, htail⟩
    | some value' =>
      obtain rfl : rest = _ := htail
      exact absurd hrest hequals
  | some value =>
    cases value' with
    | none =>
      obtain rfl : _ = rest' := htail
      exact absurd hrest' hequals
    | some value' =>
      obtain ⟨hvalue, hrest⟩ := h value rfl value' _ _ (h' value' rfl) hrest hrest' (List.cons.inj htail).2
      exact ⟨by rw [Option.map_some, Option.map_some, hvalue], hrest⟩

theorem unique_list {params params' : List Param} (hname : ∀ param ∈ params, IsName param.name)
    (hname' : ∀ param ∈ params', IsName param.name)
    (h : ∀ value ∈ defaults params, value.Unique) (h' : ∀ value ∈ defaults params', value.Plain)
    (htext : (outlineParams params).toList ++ ')' :: rest = (outlineParams params').toList ++ ')' :: rest') :
    params.map skeleton = params'.map skeleton ∧ rest = rest' := by
  have hdefault : ∀ {P : Node → Prop} {params : List Param}, (∀ value ∈ defaults params, P value) →
      ∀ param ∈ params, ∀ value ∈ param.default, P value := fun h param hparam value hvalue =>
    h value (List.mem_filterMap.mpr ⟨param, hparam, hvalue⟩)
  have hapart : Apart (fun param => param.outline.toList) skeleton params params' :=
    fun param hparam param' hparam' _ _ => unique (hname param hparam) (hname' param' hparam')
      (hdefault h param hparam) (hdefault h' param' hparam')
  have hstart : ∀ param ∈ params ++ params', ∃ c more, param.outline.toList = c :: more ∧ c ≠ ')' := by
    intro param hparam
    rcases List.mem_append.mp hparam with hparam | hparam
    · exact exists_start (hname param hparam) (by decide)
    · exact exists_start (hname' param hparam) (by decide)
  rw [toList_outlineParams, toList_outlineParams] at htext
  obtain ⟨hparams, htail⟩ := joined_unique hapart hstart (by decide) (by decide) (by decide) closes_cons
    closes_cons htext
  exact ⟨hparams, (List.cons.inj htail).2⟩

end Param

/-! ## Trees -/

theorem BinaryOp.symbol_inj {op op' : BinaryOp} (h : op.symbol = op'.symbol) : op = op' := by
  have hnodup : (BinaryOp.all.map BinaryOp.symbol).Nodup := by decide +kernel
  have hmem : ∀ op : BinaryOp, op ∈ BinaryOp.all := by
    intro op
    cases op <;> decide
  exact List.inj_on_of_nodup_map hnodup (hmem op) (hmem op') h

theorem UnaryOp.symbol_inj {op op' : UnaryOp} (h : op.symbol = op'.symbol) : op = op' := by
  revert h
  cases op <;> cases op' <;> decide

namespace Node

variable {span : Span}

theorem unique_unary {op : UnaryOp} {operand : Node} (h : (Node.unary op operand span).Plain)
    (hoperand : operand.Unique) : (Node.unary op operand span).Unique := by
  refine .of_form h rfl fun {node' body' rest rest'} h' hlook' hbody => ?_
  cases node' with
  | unary op' operand' span' =>
    obtain ⟨hop, rfl⟩ : op.symbol = op'.symbol ∧ _ = body' := by simpa [look, eq_comm] using hlook'
    rw [List.append_assoc, List.append_assoc] at hbody
    obtain ⟨hoperand, -, hrest⟩ := hoperand.step (h'.part (by simp [parts])) (by decide) (by decide) hbody
    obtain rfl := UnaryOp.symbol_inj hop
    exact ⟨congrArg (Node.unary op · .nowhere) hoperand, hrest⟩
  | binary op' left right span' =>
    -- a second operand would stand where the list ends
    obtain ⟨-, rfl⟩ : op.symbol = op'.symbol ∧ _ = body' := by simpa [look, eq_comm] using hlook'
    rw [List.append_assoc, List.append_assoc] at hbody
    obtain ⟨-, hclose, -⟩ := hoperand.step (h'.part (by simp [parts])) (by decide) (by decide) hbody
    cases hclose
  | ret value span => cases value <;> cases hlook'
  | _ => cases hlook'

theorem unique_binary {op : BinaryOp} {left right : Node} (h : (Node.binary op left right span).Plain)
    (hleft : left.Unique) (hright : right.Unique) : (Node.binary op left right span).Unique := by
  refine .of_form h rfl fun {node' body' rest rest'} h' hlook' hbody => ?_
  cases node' with
  | unary op' operand' span' =>
    obtain ⟨-, rfl⟩ : op.symbol = op'.symbol ∧ _ = body' := by simpa [look, eq_comm] using hlook'
    rw [List.append_assoc, List.append_assoc] at hbody
    obtain ⟨-, hclose, -⟩ := hleft.step (h'.part (by simp [parts])) (by decide) (by decide) hbody
    cases hclose
  | binary op' left' right' span' =>
    obtain ⟨hop, rfl⟩ : op.symbol = op'.symbol ∧ _ = body' := by simpa [look, eq_comm] using hlook'
    simp only [List.append_assoc, List.cons_append, List.nil_append] at hbody
    obtain ⟨hleft, -, hbody⟩ := hleft.step (h'.part (by simp [parts])) (by decide) (by decide) hbody
    obtain ⟨hright, -, hrest⟩ := hright.step (h'.part (by simp [parts])) (by decide) (by decide) hbody
    obtain rfl := BinaryOp.symbol_inj hop
    exact ⟨congrArg₂ (Node.binary op · · .nowhere) hleft hright, hrest⟩
  | ret value span => cases value <;> cases hlook'
  | _ => cases hlook'

theorem unique_assign {target : String} {var : VarRef} {decl : DeclKind} {op : Option BinaryOp} {value : Node}
    (h : (Node.assign target var decl op value span).Plain) (hvalue : value.Unique) :
    (Node.assign target var decl op value span).Unique := by
  refine .of_form h rfl fun {node' body' rest rest'} h' hlook' hbody => ?_
  cases node' with
  | assign target' var' decl' op' value' span' =>
    cases hlook'
    simp only [List.append_assoc, List.cons_append, List.nil_append] at hbody
    obtain ⟨rfl, htail⟩ := outlineName_unique h.own.1 h'.own.1 h.placed h'.placed (stops_cons (by decide))
      (stops_cons (by decide)) hbody
    obtain ⟨hvalue, -, hrest⟩ := hvalue.step (h'.part (by simp [parts])) (by decide) (by decide)
      (List.cons.inj htail).2
    exact ⟨congrArg (Node.assign target .unresolved decl op · .nowhere) hvalue, hrest⟩
  | ret value span => cases value <;> cases hlook'
  | _ => cases hlook'

theorem unique_branch {cond yes : Node} {no : Option Node} {yesShape noShape : Shape}
    (h : (Node.branch cond yes no yesShape noShape span).Plain) (hcond : cond.Unique) (hyes : yes.Unique)
    (hno : ∀ node ∈ no, node.Unique) : (Node.branch cond yes no yesShape noShape span).Unique := by
  refine .of_form h rfl fun {node' body' rest rest'} h' hlook' hbody => ?_
  cases node' with
  | branch cond' yes' no' yesShape' noShape' span' =>
    cases hlook'
    have hno' : ∀ node ∈ no'.toList, node.Plain := fun node hnode => h'.part (by
      simpa [parts] using .inr (.inr (Option.mem_toList.mp hnode)))
    simp only [List.append_assoc, List.cons_append, List.nil_append, outlineElse_eq] at hbody
    obtain ⟨hcond, -, hbody⟩ := hcond.step (h'.part (by simp [parts])) (by decide) (by decide) hbody
    obtain ⟨hyes, hbody⟩ := hyes yes' _ _ (h'.part (by simp [parts])) (stops_args _) (stops_args _) hbody
    obtain ⟨hno, hrest⟩ := unique_args (by simpa using hno) hno' hbody
    have hno : no.map skeleton = no'.map skeleton := by cases no <;> cases no' <;> simp_all
    exact ⟨by rw [skeleton_branch, skeleton_branch, hcond, hyes, hno], hrest⟩
  | ret value span => cases value <;> cases hlook'
  | _ => cases hlook'

theorem unique_whileLoop {cond body : Node} {header bodyShape : Shape}
    (h : (Node.whileLoop cond body header bodyShape span).Plain) (hcond : cond.Unique) (hbody : body.Unique) :
    (Node.whileLoop cond body header bodyShape span).Unique := by
  refine .of_form h rfl fun {node' body' rest rest'} h' hlook' htext => ?_
  cases node' with
  | whileLoop cond' body' header' bodyShape' span' =>
    cases hlook'
    simp only [List.append_assoc, List.cons_append, List.nil_append] at htext
    obtain ⟨hcond, -, htext⟩ := hcond.step (h'.part (by simp [parts])) (by decide) (by decide) htext
    obtain ⟨hbody, -, hrest⟩ := hbody.step (h'.part (by simp [parts])) (by decide) (by decide) htext
    exact ⟨congrArg₂ (Node.whileLoop · · .blank .blank .nowhere) hcond hbody, hrest⟩
  | ret value span => cases value <;> cases hlook'
  | _ => cases hlook'

theorem mem_parts_header {init cond step part : Option Node} {body node : Node} {header bodyShape : Shape}
    (hpart : part ∈ [init, cond, step]) (hnode : node ∈ part) :
    node ∈ (Node.forLoop init cond step body header bodyShape span).parts.map Prod.snd := by
  obtain rfl : part = some node := hnode
  simp only [List.mem_cons, List.not_mem_nil, or_false] at hpart
  rcases hpart with rfl | rfl | rfl <;> simp [parts]

theorem Plain.header {init cond step part : Option Node} {body node : Node} {header bodyShape : Shape}
    (h : (Node.forLoop init cond step body header bodyShape span).Plain) (hpart : part ∈ [init, cond, step])
    (hnode : node ∈ part) : node.Plain := h.part (mem_parts_header hpart hnode)

theorem unique_forLoop {init cond step : Option Node} {body : Node} {header bodyShape : Shape}
    (h : (Node.forLoop init cond step body header bodyShape span).Plain)
    (hparts : ∀ part ∈ [init, cond, step], ∀ node ∈ part, node.Unique) (hbody : body.Unique) :
    (Node.forLoop init cond step body header bodyShape span).Unique := by
  refine .of_form h rfl fun {node' body' rest rest'} h' hlook' htext => ?_
  cases node' with
  | forLoop init' cond' step' body' header' bodyShape' span' =>
    cases hlook'
    simp only [List.append_assoc, List.cons_append, List.nil_append] at htext
    obtain ⟨hinit, htext⟩ := unique_option (fun _ => h.header (by simp)) (hparts init (by simp))
      (fun _ => h'.header (by simp)) htext
    obtain ⟨hcond, htext⟩ := unique_option (fun _ => h.header (by simp)) (hparts cond (by simp))
      (fun _ => h'.header (by simp)) htext
    obtain ⟨hstep, htext⟩ := unique_option (fun _ => h.header (by simp)) (hparts step (by simp))
      (fun _ => h'.header (by simp)) htext
    obtain ⟨hbody, -, hrest⟩ := hbody.step (h'.part (by simp [parts])) (by decide) (by decide) htext
    exact ⟨by rw [skeleton_forLoop, skeleton_forLoop, hinit, hcond, hstep, hbody], hrest⟩
  | ret value span => cases value <;> cases hlook'
  | _ => cases hlook'

theorem unique_define {name : String} {binding : Option VarRef} {params : List Param} {body : Node}
    {frame : Shape} (h : (Node.define name binding params body frame span).Plain)
    (hparams : ∀ value ∈ Param.defaults params, value.Unique) (hbody : body.Unique) :
    (Node.define name binding params body frame span).Unique := by
  refine .of_form h rfl fun {node' body' rest rest'} h' hlook' htext => ?_
  cases node' with
  | define name' binding' params' body' frame' span' =>
    cases hlook'
    have hplain' : ∀ value ∈ Param.defaults params', value.Plain := fun value hvalue =>
      h'.part (by simpa [parts] using .inr hvalue)
    simp only [List.append_assoc, List.cons_append, List.nil_append] at htext
    obtain ⟨rfl, hbinding, htext⟩ := functionName_unique h.own.1 h'.own.1 h.placed h'.placed
      (stops_cons (by decide)) (stops_cons (by decide)) htext
    obtain ⟨hparams, htext⟩ := Param.unique_list h.own.2 h'.own.2 hparams hplain'
      (List.cons.inj (List.cons.inj htext).2).2
    obtain ⟨hbody, -, hrest⟩ := hbody.step (h'.part (by simp [parts])) (by decide) (by decide)
      (List.cons.inj htext).2
    refine ⟨?_, hrest⟩
    rw [skeleton_define, skeleton_define, hparams, hbody]
    cases binding <;> cases binding' <;> first | rfl | cases hbinding
  | ret value span => cases value <;> cases hlook'
  | _ => cases hlook'

theorem unique_call {callee : Node} {args : List Node} (h : (Node.call callee args span).Plain)
    (hcallee : callee.Unique) (hargs : ∀ arg ∈ args, arg.Unique) : (Node.call callee args span).Unique := by
  refine .of_form h rfl fun {node' body' rest rest'} h' hlook' htext => ?_
  cases node' with
  | call callee' args' span' =>
    cases hlook'
    have hplain' : ∀ arg ∈ args', arg.Plain := fun arg harg => h'.part (by simpa [parts] using .inr harg)
    simp only [List.append_assoc, List.cons_append, List.nil_append] at htext
    obtain ⟨hcallee, htext⟩ := hcallee callee' _ _ (h'.part (by simp [parts])) (stops_args _) (stops_args _)
      htext
    obtain ⟨hargs, hrest⟩ := unique_args hargs hplain' htext
    exact ⟨by rw [skeleton_call, skeleton_call, hcallee, hargs], hrest⟩
  | ret value span => cases value <;> cases hlook'
  | _ => cases hlook'

theorem unique_ret {value : Node} (h : (Node.ret (some value) span).Plain) (hvalue : value.Unique) :
    (Node.ret (some value) span).Unique := by
  refine .of_form h rfl fun {node' body' rest rest'} h' hlook' htext => ?_
  cases node' with
  | ret value' span' =>
    cases value' with
    | none => cases hlook'
    | some value' =>
      cases hlook'
      rw [List.append_assoc, List.append_assoc] at htext
      obtain ⟨hvalue, -, hrest⟩ := hvalue.step (h'.part (by simp [parts])) (by decide) (by decide) htext
      exact ⟨congrArg (fun value => Node.ret (some value) .nowhere) hvalue, hrest⟩
  | _ => cases hlook'

theorem unique_block {body : List Node} (h : (Node.block body span).Plain)
    (hbody : ∀ node ∈ body, node.Unique) : (Node.block body span).Unique := by
  intro node' rest rest' h' hrest hrest' htext
  have hagree := h.agree h' hrest hrest' htext
  cases node' with
  | block body' span' =>
    have hagree : (outlineLines body).toList ++ ['\x7d'] ++ rest = (outlineLines body').toList ++ ['\x7d'] ++ rest' :=
      hagree
    rw [List.append_assoc, List.append_assoc] at hagree
    obtain ⟨hbody, htail⟩ := unique_lines (fun node hnode => h.part (by simpa [parts] using hnode)) hbody
      (fun node hnode => h'.part (by simpa [parts] using hnode)) closes_cons closes_cons hagree
    exact ⟨by rw [skeleton_block, skeleton_block, hbody], (List.cons.inj htail).2⟩
  | ret value span => cases value <;> exact hagree.elim
  | _ => exact hagree.elim

theorem unique_str {text : String} (h : (Node.str text span).Plain) : (Node.str text span).Unique := by
  intro node' rest rest' h' hrest hrest' htext
  have hagree := h.agree h' hrest hrest' htext
  cases node' with
  | str text' span' =>
    obtain ⟨rfl, hrest⟩ := hagree
    exact ⟨rfl, hrest⟩
  | ret value span => cases value <;> exact hagree.elim
  | _ => exact hagree.elim

theorem unique_word {node : Node} {word : List Char} {place : Option Place} (h : node.Plain)
    (hlook : node.look = .word word place) : node.Unique := by
  intro node' rest rest' h' hrest hrest' htext
  have hagree := h.agree h' hrest hrest' htext
  rw [hlook] at hagree
  cases hlook' : node'.look with
  | word word' place' =>
    rw [hlook'] at hagree
    obtain ⟨⟨rfl, rfl⟩, hrest⟩ := hagree
    exact ⟨word_unique h.own h'.own hlook hlook', hrest⟩
  | _ =>
    rw [hlook'] at hagree
    exact hagree.elim

/-- **An outline can be read from the left in one way only.** -/
theorem Plain.unique {node : Node} (h : node.Plain) : node.Unique := by
  induction h with
  | @intro node hnode hparts ih =>
    have hplain : node.Plain := .intro hnode hparts
    have hunique : ∀ part ∈ node.parts.map Prod.snd, part.Unique := List.forall_mem_map.mpr ih
    cases node with
    | int | float | bool | null | ident | breakLoop | continueLoop => exact unique_word hplain rfl
    | str => exact unique_str hplain
    | unary => exact unique_unary hplain (hunique _ (by simp [parts]))
    | binary => exact unique_binary hplain (hunique _ (by simp [parts])) (hunique _ (by simp [parts]))
    | assign => exact unique_assign hplain (hunique _ (by simp [parts]))
    | branch =>
      exact unique_branch hplain (hunique _ (by simp [parts])) (hunique _ (by simp [parts]))
        fun no hno => hunique no (by simpa [parts] using .inr (.inr hno))
    | whileLoop => exact unique_whileLoop hplain (hunique _ (by simp [parts])) (hunique _ (by simp [parts]))
    | forLoop =>
      exact unique_forLoop hplain (fun _ hpart node hnode => hunique node (mem_parts_header hpart hnode))
        (hunique _ (by simp [parts]))
    | define =>
      exact unique_define hplain (fun value hvalue => hunique value (by simpa [parts] using .inr hvalue))
        (hunique _ (by simp [parts]))
    | call =>
      exact unique_call hplain (hunique _ (by simp [parts]))
        fun arg harg => hunique arg (by simpa [parts] using .inr harg)
    | block => exact unique_block hplain fun node hnode => hunique node (by simpa [parts] using hnode)
    | ret value span =>
      cases value with
      | none => exact unique_word hplain rfl
      | some value => exact unique_ret hplain (hunique value (by simp [parts]))

end Node

/-! ## Programs -/

/-- The outline of a program determines it up to spans, places and shapes. -/
theorem Program.skeleton_eq_of_outline {program program' : Program} (h : ∀ node ∈ program.body, node.Plain)
    (h' : ∀ node ∈ program'.body, node.Plain) (houtline : program.outline = program'.outline) :
    program.skeleton = program'.skeleton := by
  have hskeleton : ∀ program : Program, program.skeleton = { body := program.body.map Node.skeleton } := by
    intro program
    rw [skeleton, Program.unmarked, Program.bare, ← bareNodes_eq_map, unmarkedNodes_bare]
  have htext : (outlineLines program.body).toList ++ [] = (outlineLines program'.body).toList ++ [] :=
    congrArg (String.toList · ++ []) houtline
  have hnil : Closes '\x7d' [] := by
    intro c hc
    cases hc
  obtain ⟨hbody, -⟩ := Node.unique_lines h (fun node hnode => (h node hnode).unique) h' hnil hnil htext
  rw [hskeleton, hskeleton, hbody]

/-- In a program that compiles all names are names, and their places are known. -/
theorem plain_of_compile {source : String} {program : Program} (h : compile source = .ok program) :
    ∀ node ∈ program.body, node.Plain := by
  have hok : ∀ {ε α : Type} {f : ε → Diagnostic} {x : Except ε α} {a : α}, diagnose f x = .ok a → x = .ok a := by
    intro ε α f x a hx
    cases x with
    | ok b => exact congrArg _ (Except.ok.inj hx)
    | error e => cases hx
  simp only [compile, bind_eq_ok_iff] at h
  obtain ⟨tokens, htokens, raw, hraw, hresolve⟩ := h
  have hlegible := (Program.ofTokens_legible (Token.scan_legible (hok htokens)) (hok hraw)).resolve
    Node.ownLegible_unmarked (hok hresolve)
  have hplaced := Program.resolve_placed (hok hresolve)
  exact fun node hnode => (hlegible node hnode).and (hplaced node hnode)

/-- **The outline of a program that compiles determines it up to spans.** -/
theorem Program.bare_eq_of_outline {source source' : String} {program program' : Program}
    (h : compile source = .ok program) (h' : compile source' = .ok program')
    (houtline : program.outline = program'.outline) : program.bare = program'.bare := by
  obtain ⟨raw, hraw⟩ := resolve_of_compile h
  obtain ⟨raw', hraw'⟩ := resolve_of_compile h'
  have hskeleton : raw.skeleton = raw'.skeleton := by
    rw [← skeleton_resolve hraw, ← skeleton_resolve hraw']
    exact skeleton_eq_of_outline (plain_of_compile h) (plain_of_compile h') houtline
  -- what the outline does not show, the resolver made from the skeleton
  have hresolve : raw.skeleton.resolve = .ok program.bare := by
    rw [resolve_skeleton, hraw]
    rfl
  have hresolve' : raw'.skeleton.resolve = .ok program'.bare := by
    rw [resolve_skeleton, hraw']
    rfl
  rw [hskeleton, hresolve'] at hresolve
  exact (Except.ok.inj hresolve).symm

/-- A name with a place, a text, a missing part and a function without a name, in two layouts. -/
theorem Program.bare_eq_of_outline_layouts : ∃ program program',
    compile "const f = def(a, b = -2.5) { return a - b }; for (;;) f(\"x\")" = .ok program ∧
    compile "const f=def(a,b=(-2.50)){return a-b;};for(;;)f(\"x\");" = .ok program' ∧
    program.outline = program'.outline ∧ program.bare = program'.bare := by
  obtain ⟨program, hprogram⟩ := compile_ok_of_isOk (by decide +kernel :
    (compile "const f = def(a, b = -2.5) { return a - b }; for (;;) f(\"x\")").isOk = true)
  obtain ⟨program', hprogram'⟩ := compile_ok_of_isOk (by decide +kernel :
    (compile "const f=def(a,b=(-2.50)){return a-b;};for(;;)f(\"x\");").isOk = true)
  have houtline : (compile "const f = def(a, b = -2.5) { return a - b }; for (;;) f(\"x\")").toOption.map
        Program.outline =
      (compile "const f=def(a,b=(-2.50)){return a-b;};for(;;)f(\"x\");").toOption.map Program.outline := by
    decide +kernel
  rw [hprogram, hprogram'] at houtline
  have houtline : program.outline = program'.outline := Option.some.inj houtline
  exact ⟨program, program', hprogram, hprogram', houtline,
    Program.bare_eq_of_outline hprogram hprogram' houtline⟩

end SlotScript
