import SlotScript.Proofs.Scope.Skeleton
import SlotScript.Proofs.Tree.Word

/-!
# How a node starts in an outline

A node is a word, a quoted text, a block, or a list in parentheses, and its first character tells which. A
list tells by its first word what it is (`Head`). So the start of a node can be read back (`Look.unique`),
and with it a node that is just a word (`Node.word_unique`): a name has a place behind it, which a keyword
or a number has not.
-/

namespace SlotScript

/-! ## Heads -/

/-- The word that a list in parentheses starts with. -/
inductive Head where
  | operator (symbol : String)
  | assign (op : Option BinaryOp) (decl : DeclKind)
  | branch | whileLoop | forLoop | define | call | ret
deriving DecidableEq

namespace Head

def text : Head → String
  | operator symbol => symbol
  | assign op decl => outlineAssign op decl
  | branch => "if"
  | whileLoop => "while"
  | forLoop => "for"
  | define => "def"
  | call => "call"
  | ret => "return"

/-- All that there are. One head serves for `-` in front of its operand and between two. -/
def all : List Head :=
  [operator UnaryOp.not.symbol, assign none .plain, assign none .var, assign none .const, branch, whileLoop,
    forLoop, define, call, ret] ++
  BinaryOp.all.map (fun op => operator op.symbol) ++ BinaryOp.compounds.map fun op => assign (some op) .plain

theorem text_inj {head head' : Head} (h : head ∈ all) (h' : head' ∈ all)
    (htext : head.text.toList = head'.text.toList) : head = head' := by
  have hnodup : (all.map text).Nodup := by decide +kernel
  exact List.inj_on_of_nodup_map hnodup h h' (String.toList_inj.mp htext)

theorem ne_blank_of_mem_text {head : Head} (h : head ∈ all) : ∀ c ∈ head.text.toList, (c != ' ') = true := by
  have hall : (all.all fun head => head.text.toList.all (· != ' ')) = true := by decide +kernel
  exact List.all_eq_true.mp (List.all_eq_true.mp hall head h)

theorem operator_mem_all (op : BinaryOp) : operator op.symbol ∈ all := by cases op <;> simp [all, BinaryOp.all]

theorem operator_unary_mem_all (op : UnaryOp) : operator op.symbol ∈ all := by
  cases op with
  | not => exact List.mem_cons_self
  | neg => exact operator_mem_all .sub

theorem assign_mem_all {op : Option BinaryOp} {decl : DeclKind}
    (h : ∀ o ∈ op, o ∈ BinaryOp.compounds ∧ decl = .plain) : assign op decl ∈ all := by
  cases op with
  | none => cases decl <;> simp [all]
  | some o =>
    obtain ⟨ho, rfl⟩ := h o rfl
    exact List.mem_append_right _ (List.mem_map_of_mem (f := fun op => assign (some op) .plain) ho)

end Head

/-- How a node looks when it is read from the left: a word, with a place if it is a name, a quoted text, a
list in parentheses, or a block. -/
inductive Look where
  | word (text : List Char) (place : Option Place)
  | quoted (text : String)
  | form (head : Head) (body : List Char)
  | block (body : List Char)

namespace Look

def text : Look → List Char
  | word text place => text ++ placeText place
  | quoted text => (Text.quote text).toList
  | form head body => '(' :: (head.text.toList ++ ' ' :: body)
  | block body => '\x7b' :: body

/-- The words are words, and the places are known. -/
def Proper : Look → Prop
  | word text place => text ≠ [] ∧ (∀ c ∈ text, isWordChar c = true) ∧ ∀ p ∈ place, p ≠ .unresolved
  | form head _ => head ∈ Head.all
  | _ => True

/-- The two start in the same way, and what comes after the start is the same. -/
def Agree (rest rest' : List Char) : Look → Look → Prop
  | word text place, word text' place' => (text = text' ∧ place = place') ∧ rest = rest'
  | quoted text, quoted text' => text = text' ∧ rest = rest'
  | form head body, form head' body' => head = head' ∧ body ++ rest = body' ++ rest'
  | block body, block body' => body ++ rest = body' ++ rest'
  | _, _ => False

/-- The character that opens what is not a word. -/
def opening : Look → Option Char
  | word _ _ => none
  | quoted _ => some '"'
  | form _ _ => some '('
  | block _ => some '\x7b'

theorem Proper.opening {look : Look} (h : look.Proper) : ∃ c more, look.text = c :: more ∧
    (if isWordChar c then none else some c) = look.opening := by
  cases look with
  | word text place =>
    obtain ⟨hne, hword, -⟩ := h
    obtain ⟨c, more, rfl⟩ := List.exists_cons_of_ne_nil hne
    exact ⟨c, more ++ placeText place, rfl, if_pos (hword c List.mem_cons_self)⟩
  | quoted text => exact ⟨'"', text.toList.flatMap Text.escape ++ ['"'], by simp [Look.text, Text.quote], rfl⟩
  | form head body => exact ⟨'(', _, rfl, rfl⟩
  | block body => exact ⟨'\x7b', _, rfl, rfl⟩

/-- The start of a node can be read back. -/
theorem unique {look look' : Look} {rest rest' : List Char} (h : look.Proper) (h' : look'.Proper)
    (hrest : Stops rest) (hrest' : Stops rest') (htext : look.text ++ rest = look'.text ++ rest') :
    Agree rest rest' look look' := by
  have hopening : look.opening = look'.opening := by
    obtain ⟨c, more, hmore, hc⟩ := h.opening
    obtain ⟨c', more', hmore', hc'⟩ := h'.opening
    rw [hmore, hmore'] at htext
    rw [← hc, ← hc', (List.cons.inj htext).1]
  cases look with
  | word text place =>
    cases look' with
    | word text' place' =>
      rw [Look.text, Look.text, List.append_assoc, List.append_assoc] at htext
      obtain ⟨htext, hplace, hrest⟩ := word_unique h.2.1 h'.2.1 h.2.2 h'.2.2 hrest hrest' htext
      exact ⟨⟨htext, hplace⟩, hrest⟩
    | _ => cases hopening
  | quoted text =>
    cases look' with
    | quoted text' => exact Text.quote_unique htext
    | _ => cases hopening
  | form head body =>
    cases look' with
    | form head' body' =>
      have htext : head.text.toList ++ ' ' :: (body ++ rest) = head'.text.toList ++ ' ' :: (body' ++ rest') := by
        simpa [Look.text] using htext
      obtain ⟨hhead, hbody⟩ := append_unique (Head.ne_blank_of_mem_text h) (Head.ne_blank_of_mem_text h')
        (by simp) (by simp) htext
      exact ⟨Head.text_inj h h' hhead, (List.cons.inj hbody).2⟩
    | _ => cases hopening
  | block body =>
    cases look' with
    | block body' => exact (List.cons.inj htext).2
    | _ => cases hopening

end Look

/-- How the node looks. -/
def Node.look : Node → Look
  | .int value _ => .word (toString value.toInt).toList none
  | .float bits _ => .word (Decimal.exact bits).toList none
  | .bool value _ => .word (if value then "true" else "false").toList none
  | .str text _ => .quoted text
  | .null _ => .word "null".toList none
  | .ident name var _ => .word name.toList (some var.place)
  | .unary op operand _ => .form (.operator op.symbol) (operand.outline.toList ++ [')'])
  | .binary op left right _ =>
    .form (.operator op.symbol) (left.outline.toList ++ ' ' :: (right.outline.toList ++ [')']))
  | .assign target var decl op value _ =>
    .form (.assign op decl) ((outlineName target var.place).toList ++ ' ' :: (value.outline.toList ++ [')']))
  | .branch cond yes no _ _ _ => .form .branch
    (cond.outline.toList ++ ' ' :: (yes.outline.toList ++ ((outlineElse no).toList ++ [')'])))
  | .whileLoop cond body _ _ _ => .form .whileLoop (cond.outline.toList ++ ' ' :: (body.outline.toList ++ [')']))
  | .forLoop init cond step body _ _ _ => .form .forLoop
    ((outlineOption init).toList ++ ' ' :: ((outlineOption cond).toList ++ ' ' ::
      ((outlineOption step).toList ++ ' ' :: (body.outline.toList ++ [')']))))
  | .define name binding params body _ _ => .form .define
    ((outlineName name (bindingPlace binding)).toList ++ ' ' :: '(' ::
      ((outlineParams params).toList ++ ')' :: ' ' :: (body.outline.toList ++ [')'])))
  | .call callee args _ => .form .call (callee.outline.toList ++ ((outlineArgs args).toList ++ [')']))
  | .block body _ => .block ((outlineLines body).toList ++ ['\x7d'])
  | .breakLoop _ => .word "break".toList none
  | .continueLoop _ => .word "continue".toList none
  | .ret none _ => .word "return".toList none
  | .ret (some value) _ => .form .ret (value.outline.toList ++ [')'])

theorem Node.text_look {node : Node} (h : node.Placed) : node.look.text = node.outline.toList := by
  cases node with
  | ident name var span => exact (toList_outlineName name h).symm
  | ret value span => cases value <;> simp [outline, look, Look.text, Head.text, placeText]
  | _ => simp [outline, look, Look.text, Head.text, placeText]

/-! ## Words without a place -/

/-- What the words with a meaning of their own stand for. -/
def constants : List (List Char × Node) :=
  [("true".toList, .bool true .nowhere), ("false".toList, .bool false .nowhere), ("null".toList, .null .nowhere),
    ("break".toList, .breakLoop .nowhere), ("continue".toList, .continueLoop .nowhere),
    ("return".toList, .ret none .nowhere)]

/-- The kinds of such words. -/
inductive WordKind where
  | int | float | other
deriving DecidableEq

/-- What a word without a place can stand for. -/
inductive StandsFor (word : List Char) : WordKind → Node → Prop
  | int {value : Int64} : word = (toString value.toInt).toList → StandsFor word .int (.int value .nowhere)
  | float {bits : UInt64} : bits.toNat ≤ Decimal.infinityBits → word = (Decimal.exact bits).toList →
      StandsFor word .float (.float bits .nowhere)
  | constant {node : Node} : (word, node) ∈ constants → StandsFor word .other node

/-- The kind of a word, by its characters. -/
def wordKind (word : List Char) : WordKind :=
  if word.all fun c => c.isDigit || c == '-' then .int
  else if word.head?.any Char.isDigit || word == "inf".toList then .float
  else .other

theorem wordKind_int (n : Int) : wordKind (toString n).toList = .int := by
  have hall : (toString n).toList.all (fun c => c.isDigit || c == '-') = true := by
    refine List.all_eq_true.mpr fun c hc => ?_
    simpa using Decimal.mem_repr hc
  exact if_pos hall

theorem toString_int_ne_nil (n : Int) : (toString n).toList ≠ [] := by
  cases n with
  | ofNat n =>
    intro hnil
    obtain ⟨c, more, hmore, -⟩ := exists_digit n
    cases hnil.symm.trans hmore
  | negSucc n =>
    intro hnil
    simp [toString, Int.repr] at hnil

theorem wordKind_float {bits : UInt64} (h : bits.toNat ≤ Decimal.infinityBits) :
    wordKind (Decimal.exact bits).toList = .float := by
  rcases h.lt_or_eq with hlt | heq
  · have hnumeral := (Decimal.exact_of_lt hlt).1
    generalize (Decimal.exact bits).toList = text at hnumeral
    have hall : ¬ text.all (fun c => c.isDigit || c == '-') = true := by
      intro hall
      rw [List.all_eq_true] at hall
      rcases hnumeral.mark with hmark | hmark <;> cases hall _ hmark
    obtain ⟨c, hc, hdigit⟩ := hnumeral.head
    rw [wordKind, if_neg hall, if_pos (by simp [hc, hdigit])]
  · rw [Decimal.exact_of_eq heq]
    decide +kernel

theorem isWordChar_of_mem_exact {bits : UInt64} (h : bits.toNat ≤ Decimal.infinityBits) {c : Char}
    (hc : c ∈ (Decimal.exact bits).toList) : isWordChar c = true := by
  rcases h.lt_or_eq with hlt | heq
  · rcases (Decimal.exact_of_lt hlt).1.chars c hc with hdigit | hmark
    · exact isWordChar_of_isDigit hdigit
    · simp only [List.mem_cons, List.not_mem_nil, or_false] at hmark
      rcases hmark with rfl | rfl | rfl <;> rfl
  · rw [Decimal.exact_of_eq heq] at hc
    have hall : "inf".toList.all isWordChar = true := by decide +kernel
    exact List.all_eq_true.mp hall c hc

theorem wordKind_constant {word : List Char} {node : Node} (h : (word, node) ∈ constants) :
    wordKind word = .other := by
  have hall : ((constants.map Prod.fst).all fun word => wordKind word = .other) = true := by decide +kernel
  exact of_decide_eq_true (List.all_eq_true.mp hall word (List.mem_map_of_mem h))

namespace StandsFor

variable {word : List Char} {kind kind' : WordKind} {node node' : Node}

theorem kind_eq (h : StandsFor word kind node) : wordKind word = kind := by
  cases h with
  | int hword => rw [hword, wordKind_int]
  | float hbits hword => rw [hword, wordKind_float hbits]
  | constant hmem => exact wordKind_constant hmem

/-- A word stands for one thing only. -/
theorem unique (h : StandsFor word kind node) (h' : StandsFor word kind' node') : node = node' := by
  obtain rfl : kind = kind' := h.kind_eq.symm.trans h'.kind_eq
  cases h with
  | int hword =>
    cases h' with
    | int hword' =>
      rw [hword, String.toList_inj] at hword'
      rw [Int64.toInt_inj.mp (Int.repr_inj.mp hword')]
  | float hbits hword =>
    cases h' with
    | float hbits' hword' =>
      rw [hword, String.toList_inj] at hword'
      rw [Decimal.exact_injective hbits hbits' hword']
  | constant hmem =>
    cases h' with
    | constant hmem' =>
      have hnodup : (constants.map Prod.fst).Nodup := by decide +kernel
      exact (Prod.mk.inj (List.inj_on_of_nodup_map hnodup hmem hmem' rfl)).2

theorem proper (h : StandsFor word kind node) : (Look.word word none).Proper := by
  refine ⟨?_, ?_, by simp⟩
  · rintro rfl
    cases h with
    | int hword => exact toString_int_ne_nil _ hword.symm
    | float hbits hword =>
      have hkind := wordKind_float hbits
      rw [← hword] at hkind
      cases hkind
    | constant hmem => cases wordKind_constant hmem
  · intro c hc
    cases h with
    | int hword =>
      subst hword
      rcases Decimal.mem_repr hc with hdigit | rfl
      · exact isWordChar_of_isDigit hdigit
      · rfl
    | float hbits hword =>
      subst hword
      exact isWordChar_of_mem_exact hbits hc
    | constant hmem =>
      have hall : ((constants.map Prod.fst).all fun word => word.all isWordChar) = true := by decide +kernel
      exact List.all_eq_true.mp (List.all_eq_true.mp hall word (List.mem_map_of_mem hmem)) c hc

end StandsFor

theorem Node.standsFor {node : Node} {word : List Char} (h : node.OwnLegible)
    (hlook : node.look = .word word none) : ∃ kind, StandsFor word kind node.skeleton := by
  cases node with
  | int value span =>
    cases hlook
    exact ⟨_, .int rfl⟩
  | float bits span =>
    cases hlook
    exact ⟨_, .float h rfl⟩
  | bool value span =>
    cases hlook
    cases value <;> exact ⟨_, .constant (by simp [constants, skeleton, bare, unmarked])⟩
  | null | breakLoop | continueLoop =>
    cases hlook
    exact ⟨_, .constant (by simp [constants, skeleton, bare, unmarked])⟩
  | ret value span =>
    cases value with
    | none =>
      cases hlook
      exact ⟨_, .constant (by simp [constants, skeleton, bare, unmarked, bareOption, unmarkedOption])⟩
    | some value => cases hlook
  | _ => cases hlook

/-- Only a name has a place. -/
theorem Node.ident_of_look {node : Node} {word : List Char} {place : Place}
    (hlook : node.look = .word word (some place)) :
    ∃ name, word = name.toList ∧ node.skeleton = .ident name .unresolved .nowhere := by
  cases node with
  | ident name var span =>
    cases hlook
    exact ⟨name, rfl, rfl⟩
  | ret value span => cases value <;> cases hlook
  | _ => cases hlook

theorem Node.proper_look {node : Node} (h : node.OwnLegible) (h' : node.Placed) : node.look.Proper := by
  cases node with
  | int | float | bool | null | breakLoop | continueLoop =>
    obtain ⟨kind, hstands⟩ := standsFor h rfl
    exact hstands.proper
  | ident name var span =>
    have hname : IsName name := h
    obtain ⟨c, hc, -⟩ := hname.head
    refine ⟨?_, hname.isWordChar, ?_⟩
    · intro hnil
      rw [hnil] at hc
      cases hc
    · rintro _ ⟨⟩
      exact h'
  | ret value span =>
    cases value with
    | none =>
      obtain ⟨kind, hstands⟩ := standsFor h rfl
      exact hstands.proper
    | some value => simp [look, Look.Proper, Head.all]
  | str | block => trivial
  | unary op operand span => exact Head.operator_unary_mem_all op
  | binary op left right span => exact Head.operator_mem_all op
  | assign target var decl op value span => exact Head.assign_mem_all h.2
  | _ => simp [look, Look.Proper, Head.all]

/-- Nodes that are the same word are the same. -/
theorem Node.word_unique {node node' : Node} {word : List Char} {place : Option Place} (h : node.OwnLegible)
    (h' : node'.OwnLegible) (hlook : node.look = .word word place) (hlook' : node'.look = .word word place) :
    node.skeleton = node'.skeleton := by
  cases place with
  | none =>
    obtain ⟨kind, hstands⟩ := Node.standsFor h hlook
    obtain ⟨kind', hstands'⟩ := Node.standsFor h' hlook'
    exact hstands.unique hstands'
  | some place =>
    obtain ⟨name, hname, heq⟩ := Node.ident_of_look hlook
    obtain ⟨name', hname', heq'⟩ := Node.ident_of_look hlook'
    rw [heq, heq', String.toList_inj.mp (hname.symm.trans hname')]

end SlotScript
