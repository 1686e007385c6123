import Mathlib
import SlotScript.Pipeline
import SlotScript.Proofs.Token.Spaced
import SlotScript.Proofs.Tree.RoundTrip

/-!
# Arithmetic from the source text to the result

A `Formula` is built from whole numbers by negation and the five operators of arithmetic. It is
written with spaces between its tokens, with the parentheses that precedence and left
associativity need and any others that its writer adds.

**Theorem (`runSource_formula`).** Running the text of a formula gives its value, which is computed
exactly and operand by operand from left to right, as long as every intermediate result fits into
64 bits and no divisor is zero; otherwise it fails with the fault of the first operation for which
this is not so.

The theorem joins what is known about the stages. Scanning gives back the tokens, the builder gives
back the tree, resolving names leaves a tree without names as it is, and the machine evaluates the
operands of an operator from left to right before it applies the operator.
-/

namespace SlotScript

/-! ## Formulas and their values -/

/-- The operators between two whole numbers that give a whole number. -/
inductive ArithOp where
  | add | sub | mul | div | rem

namespace ArithOp

/-- The operator of the language. -/
def binary : ArithOp → BinaryOp
  | add => .add
  | sub => .sub
  | mul => .mul
  | div => .div
  | rem => .rem

/-- An exact result, which has to fit into 64 bits. -/
def fitting (operation : CheckedOp) (n : Int) : Except Fault Int :=
  if -2 ^ 63 ≤ n ∧ n < 2 ^ 63 then .ok n else .error (.overflow operation)

/-- The exact result of the operator. Division cuts off toward zero; a remainder is refused where
the quotient does not fit. -/
def apply (a b : Int) : ArithOp → Except Fault Int
  | add => fitting .addition (a + b)
  | sub => fitting .subtraction (a - b)
  | mul => fitting .multiplication (a * b)
  | div => if b = 0 then .error .divisionByZero else fitting .division (a.tdiv b)
  | rem =>
    if b = 0 then .error .moduloByZero
    else if a = -2 ^ 63 ∧ b = -1 then .error (.overflow .remainder)
    else .ok (a.tmod b)

end ArithOp

/-- A formula over whole numbers, as it is written. -/
inductive Formula where
  /-- A number. -/
  | literal (n : Nat) (h : n ≤ Token.maxInteger)
  /-- A negation. -/
  | neg (operand : Formula)
  /-- An operator between two operands. -/
  | binary (op : ArithOp) (left right : Formula)
  /-- Parentheses that are not needed. -/
  | group (inner : Formula)

namespace Formula

/-- The formula as an expression of the language. -/
def expr : Formula → Source.Expr
  | literal n _ => .int (Int64.ofNat n)
  | neg operand => .unary .neg operand.expr
  | binary op left right => .binary op.binary left.expr right.expr
  | group inner => .group inner.expr

/-- How deep the parentheses of the written formula are nested. -/
def nesting : Formula → Nat
  | literal .. => 0
  | neg operand => Source.under (operand.expr.needsLeft UnaryOp.neg.precedence) operand.nesting
  | binary op left right =>
    max (Source.under (left.expr.needsLeft op.binary.precedence) left.nesting)
      (Source.under (right.expr.needsRight op.binary.precedence) right.nesting)
  | group inner => inner.nesting + 1

/-- The value of the formula, from left to right, or the first fault. -/
def value : Formula → Except Fault Int
  | literal n _ => .ok n
  | neg operand => do
    let a ← operand.value
    ArithOp.fitting .negation (-a)
  | binary op left right => do
    let a ← left.value
    let b ← right.value
    op.apply a b
  | group inner => inner.value

/-! ## Reading a formula -/

theorem shallow_expr (f : Formula) (depth : Nat) (h : depth + f.nesting ≤ Source.depthLimit) :
    f.expr.Shallow depth := by
  induction f generalizing depth with
  | literal n _ => trivial
  | neg operand ih =>
    refine ⟨by omega, ih _ ?_⟩
    simp only [nesting, Source.under] at h ⊢
    split <;> simp_all
    omega
  | binary op left right ihl ihr =>
    refine ⟨by omega, ihl _ ?_, ihr _ ?_⟩
    · have hle : Source.under (left.expr.needsLeft op.binary.precedence) left.nesting ≤
          (binary op left right).nesting := Nat.le_max_left _ _
      simp only [Source.under] at hle ⊢
      split at hle <;> simp_all <;> omega
    · have hle : Source.under (right.expr.needsRight op.binary.precedence) right.nesting ≤
          (binary op left right).nesting := Nat.le_max_right _ _
      simp only [Source.under] at hle ⊢
      split at hle <;> simp_all <;> omega
  | group inner ih =>
    refine ih (depth + 1) ?_
    simp only [nesting] at h
    omega

theorem lexical_parensIf (needed : Bool) {kinds : List TokenKind}
    (h : ∀ kind ∈ kinds, kind.Lexical) : ∀ kind ∈ Source.parensIf needed kinds, kind.Lexical := by
  have hopen : (TokenKind.word "(").Lexical := TokenKind.lexical_mark '(' (by decide)
  have hclose : (TokenKind.word ")").Lexical := TokenKind.lexical_mark ')' (by decide)
  cases needed with
  | false => exact h
  | true =>
    intro kind hkind
    simp only [Source.parensIf, Source.parens, if_true, List.cons_append, List.mem_cons,
      List.mem_append, List.not_mem_nil, or_false] at hkind
    rcases hkind with rfl | hkind | rfl
    · exact hopen
    · exact h kind hkind
    · exact hclose

theorem lexical_symbol (op : ArithOp) : (TokenKind.word op.binary.symbol).Lexical := by
  cases op with
  | add => exact TokenKind.lexical_mark '+' (by decide)
  | sub => exact TokenKind.lexical_mark '-' (by decide)
  | mul => exact TokenKind.lexical_mark '*' (by decide)
  | div => exact TokenKind.lexical_mark '/' (by decide)
  | rem => exact TokenKind.lexical_mark '%' (by decide)

/-- Every token of a formula can be scanned. -/
theorem lexical_tokens (f : Formula) : ∀ kind ∈ f.expr.tokens, kind.Lexical := by
  induction f with
  | literal n h =>
    simp only [expr, Source.Expr.tokens, List.mem_singleton]
    rintro _ rfl
    exact TokenKind.lexical_int h
  | neg operand ih =>
    simp only [expr, Source.Expr.tokens, List.mem_cons]
    rintro kind (rfl | hkind)
    · exact TokenKind.lexical_mark '-' (by decide)
    · exact lexical_parensIf _ ih kind hkind
  | binary op left right ihl ihr =>
    simp only [expr, Source.Expr.tokens, List.mem_append, List.mem_cons]
    rintro kind (hkind | rfl | hkind)
    · exact lexical_parensIf _ ihl kind hkind
    · exact lexical_symbol op
    · exact lexical_parensIf _ ihr kind hkind
  | group inner ih => exact lexical_parensIf true ih

/-- The builder gives back the tree of the formula, which is the whole program. -/
theorem ofTokens_formula {f : Formula} {tokens : List Token}
    (hkinds : tokens.map (·.kind) = f.expr.tokens ++ [.eof])
    (hnesting : f.nesting ≤ Source.depthLimit) :
    ∃ node, Program.ofTokens tokens = .ok { body := [node] } ∧ node.bare = f.expr.node 0 := by
  have hwhile : (tokens.takeWhile (·.kind ≠ .eof)).map (·.kind) =
      Source.semicolons (Source.stmtTokens [.expr f.expr]) := by
    have hall : ∀ kind ∈ f.expr.tokens, decide (kind ≠ .eof) = true := fun kind hkind =>
      decide_eq_true (f.lexical_tokens kind hkind).ne_eof
    calc (tokens.takeWhile (·.kind ≠ .eof)).map (·.kind)
        = (tokens.map (·.kind)).takeWhile (· ≠ .eof) := by rw [List.takeWhile_map]; rfl
      _ = f.expr.tokens := by
        rw [hkinds, List.takeWhile_append_of_pos hall]
        simp
      _ = Source.semicolons (Source.stmtTokens [.expr f.expr]) := by
        simp [Source.semicolons, Source.stmtTokens, Source.Stmt.tokens]
  have hbare := Program.ofTokens_bare_written hwhile ⟨f.shallow_expr 0 (by omega), trivial⟩
  rw [Program.ofTokens_bare] at hbare
  obtain ⟨⟨body, shape⟩, hprogram, hbody⟩ := bareWith_eq_ok.mp hbare
  obtain ⟨hnodes, rfl⟩ : body.map Node.bare = [f.expr.node 0] ∧ shape = .blank := by
    simpa [Program.bare, Source.stmtNodes, Source.Stmt.node] using hbody
  obtain ⟨node, rfl, hnode⟩ := List.map_eq_singleton_iff.mp hnodes
  exact ⟨node, hprogram, hnode⟩

/-! ## Running a formula -/

section Nodes

variable {node : Node}

theorem of_bare_eq_int {n : Int64} {span : Span} (h : node.bare = .int n span) :
    ∃ span, node = .int n span := by
  cases node <;> simp [Node.bare] at h
  exact ⟨_, by rw [h.1]⟩

theorem of_bare_eq_unary {op : UnaryOp} {e : Node} {span : Span}
    (h : node.bare = .unary op e span) :
    ∃ operand span, node = .unary op operand span ∧ operand.bare = e := by
  cases node <;> simp [Node.bare] at h
  obtain ⟨rfl, rfl, -⟩ := h
  exact ⟨_, _, rfl, rfl⟩

theorem of_bare_eq_binary {op : BinaryOp} {a b : Node} {span : Span}
    (h : node.bare = .binary op a b span) :
    ∃ left right span, node = .binary op left right span ∧ left.bare = a ∧ right.bare = b := by
  cases node <;> simp [Node.bare] at h
  obtain ⟨rfl, rfl, rfl, -⟩ := h
  exact ⟨_, _, _, rfl, rfl, rfl⟩

end Nodes

/-- There are no names to resolve. -/
theorem resolve_node (f : Formula) {node : Node} {k : Nat} (hnode : node.bare = f.expr.node k)
    (inLoop : Bool) (outer : List Context) (here : Context) :
    node.resolve inLoop outer here = .ok (node, here) := by
  induction f generalizing node k with
  | literal n h =>
    obtain ⟨span, rfl⟩ := of_bare_eq_int hnode
    rw [Node.resolve]
  | neg operand ih =>
    obtain ⟨e, span, rfl, he⟩ := of_bare_eq_unary hnode
    rw [Node.resolve, ih he]
    rfl
  | binary op left right ihl ihr =>
    obtain ⟨a, b, span, rfl, ha, hb⟩ := of_bare_eq_binary hnode
    simp only [Node.resolve, ihl ha, ihr hb, ok_bind]
    rfl
  | group inner ih => exact ih hnode

end Formula

namespace Machine

/-- The run comes to another state after some steps. -/
def LeadsTo (m m' : Machine) : Prop := ∃ n, ∀ limit, run (limit + n) m = run limit m'

/-- The run fails after some steps. -/
def Fails (m : Machine) (e : RunError) : Prop :=
  ∃ n, ∀ limit, ∃ store, run (limit + n) m = .failed e store

variable {m m' m'' : Machine} {e : RunError}

theorem leadsTo_of_step (h : m.step = .next m') : LeadsTo m m' :=
  ⟨1, fun limit => by rw [run, h]⟩

theorem fails_of_step {store : Store} (h : m.step = .failed e store) : Fails m e :=
  ⟨1, fun limit => ⟨store, by rw [run, h]⟩⟩

theorem LeadsTo.trans (h : LeadsTo m m') (h' : LeadsTo m' m'') : LeadsTo m m'' := by
  obtain ⟨n, hn⟩ := h
  obtain ⟨n', hn'⟩ := h'
  exact ⟨n' + n, fun limit => by rw [← Nat.add_assoc, hn, hn']⟩

theorem LeadsTo.fails (h : LeadsTo m m') (h' : Fails m' e) : Fails m e := by
  obtain ⟨n, hn⟩ := h
  obtain ⟨n', hn'⟩ := h'
  exact ⟨n' + n, fun limit => by rw [← Nat.add_assoc, hn]; exact hn' limit⟩

end Machine

/-- What an operator gives is the exact result. -/
def Agrees (exact : Except Fault Int) (result : Except Fault Value) : Prop :=
  match exact with
  | .ok v => ∃ w : Int64, w.toInt = v ∧ result = .ok (.int w)
  | .error fault => result = .error fault

theorem agrees_checkedInt (operation : CheckedOp) (n : Int) :
    Agrees (ArithOp.fitting operation n) (checkedInt operation n) := by
  have hiff : (Int64.minValue.toInt ≤ n ∧ n ≤ Int64.maxValue.toInt) ↔ -2 ^ 63 ≤ n ∧ n < 2 ^ 63 := by
    rw [Int64.toInt_minValue, Int64.toInt_maxValue]
    omega
  simp only [ArithOp.fitting, checkedInt, hiff]
  split
  · rename_i h
    exact ⟨Int64.ofInt n, Int64.toInt_ofInt_of_le h.1 h.2, rfl⟩
  · rfl

theorem toInt_eq_zero_iff (b : Int64) : b.toInt = 0 ↔ b = 0 := by
  rw [← Int64.toInt_zero, Int64.toInt_inj]

theorem agrees_remainderInt (a b : Int64) :
    Agrees (ArithOp.rem.apply a.toInt b.toInt) (remainderInt a b) := by
  have hmin : a.toInt = -2 ^ 63 ∧ b.toInt = -1 ↔ a = Int64.minValue ∧ b = -1 := by
    rw [← Int64.toInt_minValue, Int64.toInt_inj, ← Int64.toInt_inj (x := b)]
    rfl
  simp only [ArithOp.apply, remainderInt, toInt_eq_zero_iff, hmin]
  split
  · rfl
  · split
    · rfl
    · rename_i hzero _
      refine ⟨_, Int64.toInt_ofInt_of_le ?_ ?_, rfl⟩ <;>
      · have hb := b.toInt_lt
        have hb' := b.le_toInt
        have hne : b.toInt ≠ 0 := fun h => hzero ((toInt_eq_zero_iff b).mp h)
        have hlt := Nat.mod_lt a.toInt.natAbs (Int.natAbs_pos.mpr hne)
        rw [← Int.natAbs_tmod] at hlt
        omega

/-- The operators on 64 bits give the exact result where there is one. -/
theorem agrees_applyBinary (op : ArithOp) (a b : Int64) :
    Agrees (op.apply a.toInt b.toInt) (applyBinary (.int a) (.int b) op.binary) := by
  cases op with
  | add => exact agrees_checkedInt _ _
  | sub => exact agrees_checkedInt _ _
  | mul => exact agrees_checkedInt _ _
  | div =>
    refine (?_ : Agrees _ (divideInt a b))
    simp only [ArithOp.apply, divideInt, toInt_eq_zero_iff]
    split
    · rfl
    · exact agrees_checkedInt _ _
  | rem => exact agrees_remainderInt a b

namespace Machine

variable {node : Node} {scope : ScopeId} {stack : List Waiting} {store : Store}

/-- The machine evaluates a node to a whole number, or fails. -/
def Evaluates (m : Machine) (result : Except Fault Int) (stack : List Waiting) (store : Store) :
    Prop :=
  match result with
  | .ok v => ∃ w : Int64, w.toInt = v ∧ LeadsTo m ⟨.deliver (.normal (.int w)), stack, store⟩
  | .error fault => ∃ span, Fails m ⟨fault, some span⟩

theorem LeadsTo.evaluates {m m' : Machine} {result : Except Fault Int} (h : LeadsTo m m')
    (h' : Evaluates m' result stack store) : Evaluates m result stack store := by
  cases result with
  | ok v =>
    obtain ⟨w, hw, hleads⟩ := h'
    exact ⟨w, hw, h.trans hleads⟩
  | error fault =>
    obtain ⟨span, hfails⟩ := h'
    exact ⟨span, h.fails hfails⟩

/-- An operator is applied after its operand. -/
theorem Evaluates.bind {m : Machine} {result : Except Fault Int} {inner : List Waiting}
    {next : Int → Except Fault Int} (h : Evaluates m result inner store)
    (hnext : ∀ w : Int64, Evaluates ⟨.deliver (.normal (.int w)), inner, store⟩ (next w.toInt)
      stack store) : Evaluates m (result >>= next) stack store := by
  cases result with
  | ok v =>
    obtain ⟨w, rfl, hleads⟩ := h
    exact hleads.evaluates (hnext w)
  | error fault => exact h

theorem evaluates_of_agrees {m : Machine} {exact : Except Fault Int}
    {result : Except Fault Value} {span : Span} (h : Agrees exact result)
    (hstep : m.step = .result result span stack store) : Evaluates m exact stack store := by
  cases exact with
  | ok v =>
    obtain ⟨w, hw, rfl⟩ := h
    exact ⟨w, hw, leadsTo_of_step hstep⟩
  | error fault =>
    obtain rfl : result = .error fault := h
    exact ⟨span, fails_of_step hstep⟩

end Machine

namespace Formula

open Machine

/-- The machine computes the value of a formula. -/
theorem evaluates_node (f : Formula) {node : Node} {k : Nat} (hnode : node.bare = f.expr.node k)
    (scope : ScopeId) (stack : List Waiting) (store : Store) :
    Evaluates ⟨.eval node scope, stack, store⟩ f.value stack store := by
  induction f generalizing node k stack with
  | literal n h =>
    obtain ⟨span, rfl⟩ := of_bare_eq_int hnode
    refine ⟨Int64.ofNat n, Int64.toInt_ofNat_of_lt ?_, leadsTo_of_step rfl⟩
    simp only [Token.maxInteger] at h
    omega
  | neg operand ih =>
    obtain ⟨e, span, rfl, he⟩ := of_bare_eq_unary hnode
    have hstart : LeadsTo ⟨.eval (.unary .neg e span) scope, stack, store⟩
        ⟨.eval e scope, .unary .neg span :: stack, store⟩ := leadsTo_of_step rfl
    refine hstart.evaluates ((ih he _).bind fun a => ?_)
    exact evaluates_of_agrees (agrees_checkedInt .negation (-a.toInt)) rfl
  | binary op left right ihl ihr =>
    obtain ⟨l, r, span, rfl, hl, hr⟩ := of_bare_eq_binary hnode
    have hstart : LeadsTo ⟨.eval (.binary op.binary l r span) scope, stack, store⟩
        ⟨.eval l scope, .left op.binary r scope span :: stack, store⟩ :=
      leadsTo_of_step (by cases op <;> rfl)
    refine hstart.evaluates ((ihl hl _).bind fun a => ?_)
    have hright : LeadsTo
        ⟨.deliver (.normal (.int a)), .left op.binary r scope span :: stack, store⟩
        ⟨.eval r scope, .right op.binary (.int a) span :: stack, store⟩ := leadsTo_of_step rfl
    refine hright.evaluates ((ihr hr _).bind fun b => ?_)
    exact evaluates_of_agrees (agrees_applyBinary op a b) rfl
  | group inner ih => exact ih hnode stack

end Formula

/-- What a source text comes to if its program comes to this. -/
def Ending.verdict : Ending → Verdict
  | .value v => .value v
  | .error e => .failure e.toDiagnostic
  | .unfinished => .unfinished

theorem runSource_of_compile {source : String} {program : Program}
    (h : compile source = .ok program) (limit : Nat) :
    runSource limit source = (program.interpret limit []).1.verdict := by
  rw [runSource, h]
  simp only
  cases (program.interpret limit []).1 <;> rfl

/-- **Running a formula gives its value.** -/
theorem runSource_formula (f : Formula) (source : String)
    (hsource : Spaced f.expr.tokens source.toList) (hnesting : f.nesting < 4294967) :
    ∃ enough, ∀ limit ≥ enough,
      match f.value with
      | .ok v => ∃ w : Int64, w.toInt = v ∧ runSource limit source = .value (.int w)
      | .error fault =>
        ∃ span, runSource limit source = .failure (RunError.toDiagnostic ⟨fault, some span⟩) := by
  obtain ⟨tokens, hscan, hkinds⟩ := Token.scanFrom_spaced hsource f.lexical_tokens 0
  have hdepth : f.nesting ≤ Source.depthLimit := Nat.le_of_lt hnesting
  obtain ⟨node, hprogram, hnode⟩ := Formula.ofTokens_formula hkinds hdepth
  have hcompile : compile source = .ok ⟨[node], (Context.fresh .program).shape⟩ := by
    simp only [compile, tokensOf, Token.scan, hscan, hprogram, diagnose, ok_bind, Program.resolve,
      resolveAll, f.resolve_node hnode]
    rfl
  let opened := (Store.seeded []).openScope (Context.fresh .program).shape none
  have hrun : ∀ limit, runSource limit source =
      (runStatements limit opened.1 .null [node] opened.2).1.verdict :=
    fun limit => runSource_of_compile hcompile limit
  have hevaluates := f.evaluates_node hnode opened.1 [] opened.2
  cases hvalue : f.value with
  | ok v =>
    rw [hvalue] at hevaluates
    obtain ⟨w, hw, n, hleads⟩ := hevaluates
    refine ⟨n + 1, fun limit hlimit => ⟨w, hw, ?_⟩⟩
    obtain ⟨left, rfl⟩ : ∃ left, limit = left + 1 + n := ⟨limit - (n + 1), by omega⟩
    rw [hrun, runStatements, Machine.evaluate, hleads]
    rfl
  | error fault =>
    rw [hvalue] at hevaluates
    obtain ⟨span, n, hfails⟩ := hevaluates
    refine ⟨n, fun limit hlimit => ⟨span, ?_⟩⟩
    obtain ⟨left, rfl⟩ : ∃ left, limit = left + n := ⟨limit - n, by omega⟩
    obtain ⟨store, hfailed⟩ := hfails left
    rw [hrun, runStatements, Machine.evaluate, hfailed]
    rfl

/-- `- 7 / ( 2 - 5 ) % 4` -/
def Formula.sample : Formula :=
  .binary .rem
    (.binary .div (.neg (.literal 7 (by decide)))
      (.binary .sub (.literal 2 (by decide)) (.literal 5 (by decide))))
    (.literal 4 (by decide))

theorem runSource_formula_sample :
    ∃ enough, ∀ limit ≥ enough,
      ∃ w : Int64, w.toInt = 2 ∧ runSource limit "- 7 / ( 2 - 5 ) % 4" = .value (.int w) := by
  have htext : [' '].intercalate (Formula.sample.expr.tokens.map (·.describe.toList)) =
      "- 7 / ( 2 - 5 ) % 4".toList := by
    decide +kernel
  have hvalue : Formula.sample.value = .ok 2 := rfl
  have h := runSource_formula Formula.sample "- 7 / ( 2 - 5 ) % 4"
    (htext ▸ spaced_intercalate Formula.sample.expr.tokens) (by decide +kernel)
  rwa [hvalue] at h

end SlotScript
