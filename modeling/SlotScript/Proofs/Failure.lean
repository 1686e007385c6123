import SlotScript.Pipeline
import SlotScript.Proofs.Machine.Blame
import SlotScript.Proofs.Tree.Within

/-!
# Every failure points into the source

**Theorem (`runSource_failure`).** If a source text fails, in whatever stage, the diagnostic has one
primary label, and all its labels are within the source. If the source has a tree, so that it is its
names or its run that fail, the primary label is the span of a node of the tree.

Each stage has a theorem of its own for the spans of its errors: the scanner `Token.scan_within`, the
builder `Program.ofTokens_within`, the resolver `Program.resolve_spanned` and the machine
`Program.interpret_spanned`. The last two speak of any set of spans that holds those of the tree, and
the spans of its nodes are such a set.
-/

namespace SlotScript

/-- The diagnostic has one primary label, at the given span, and all its labels are within the
source. -/
structure Diagnostic.PointsTo (source : List Char) (span : Span) (d : Diagnostic) : Prop where
  primary : ∃ message, d.labels.filter (·.primary) = [⟨span, message, true⟩]
  within : ∀ label ∈ d.labels, label.span.Within source

theorem Diagnostic.PointsTo.primarySpan {source : List Char} {span : Span} {d : Diagnostic}
    (h : d.PointsTo source span) : d.primarySpan = some span := by
  obtain ⟨message, hprimary⟩ := h.primary
  rw [Diagnostic.primarySpan, ← List.head?_filter, hprimary]
  rfl

section Stages

variable {source : List Char}

theorem ScanError.pointsTo {e : ScanError} (h : e.span.Within source) :
    e.toDiagnostic.PointsTo source e.span :=
  ⟨⟨e.fault.label, rfl⟩, List.forall_mem_singleton.2 h⟩

theorem BuildError.pointsTo {e : BuildError} (h : e.span.Within source)
    (hopened : ∀ opening ∈ e.opened, opening.Within source) :
    e.toDiagnostic.PointsTo source e.span := by
  obtain ⟨fault, span, opened⟩ := e
  cases opened with
  | none => exact ⟨⟨"here", rfl⟩, List.forall_mem_singleton.2 h⟩
  | some opening =>
    refine ⟨⟨"here", rfl⟩, List.forall_mem_cons.2 ⟨h, List.forall_mem_singleton.2 ?_⟩⟩
    exact hopened opening rfl

theorem ScopeError.pointsTo {e : ScopeError} (h : e.span.Within source) :
    e.toDiagnostic.PointsTo source e.span :=
  ⟨⟨"here", rfl⟩, List.forall_mem_singleton.2 h⟩

theorem RunError.pointsTo {e : RunError} {span : Span} (hspan : e.span = some span)
    (h : span.Within source) : e.toDiagnostic.PointsTo source span := by
  obtain ⟨fault, site⟩ := e
  cases hspan
  exact ⟨⟨"raised here", rfl⟩, List.forall_mem_singleton.2 h⟩

end Stages

/-- The span is that of a node of the program. -/
def Program.HasSpan (program : Program) (span : Span) : Prop :=
  ∃ chain node, program.Occurs chain node ∧ node.span = span

theorem Program.Occurs.spanned {program : Program} {chain : List Region} {node : Node}
    (h : program.Occurs chain node) : node.Spanned program.HasSpan :=
  .intro ⟨chain, node, h, rfl⟩ fun part hpart => (h.part hpart).spanned
termination_by sizeOf node
decreasing_by exact Node.sizeOf_part (List.mem_map_of_mem hpart)

theorem Program.spanned_hasSpan (program : Program) : program.Spanned program.HasSpan :=
  fun _ hnode => (Program.Occurs.statement hnode).spanned

/-- Once a source has a tree, what fails is a node of it. -/
theorem failure_of_tree {limit : Nat} {source : String} {d : Diagnostic} {tokens : List Token}
    {program : Program} (htokens : Token.scan source = .ok tokens)
    (hprogram : Program.ofTokens tokens = .ok program) (h : runSource limit source = .failure d) :
    ∃ span, program.HasSpan span ∧ d.PointsTo source.toList span := by
  have hwithin : ∀ span, program.HasSpan span → span.Within source.toList := by
    rintro _ ⟨chain, node, hnode, rfl⟩
    have hscan := Token.scan_within source
    rw [htokens] at hscan
    exact (Program.ofTokens_within hscan).1 program hprogram chain node hnode
  have hcompile : compile source = diagnose ScopeError.toDiagnostic program.resolve := by
    simp only [compile, tokensOf, htokens, diagnose, ok_bind, hprogram]
  obtain ⟨hkeeps, hblames⟩ := Program.resolve_spanned program.spanned_hasSpan
  rw [runSource, hcompile] at h
  cases hresolve : program.resolve with
  | error e =>
    rw [hresolve] at h
    cases h
    have hspan := hblames e hresolve
    exact ⟨e.span, hspan, ScopeError.pointsTo (hwithin _ hspan)⟩
  | ok resolved =>
    rw [hresolve] at h
    simp only [diagnose] at h
    cases hrun : (resolved.interpret limit []).1 with
    | value value =>
      rw [hrun] at h
      cases h
    | unfinished =>
      rw [hrun] at h
      cases h
    | error e =>
      rw [hrun] at h
      cases h
      obtain ⟨span, hspan, hhas⟩ :=
        Program.interpret_spanned hresolve (hkeeps resolved hresolve) hrun
      exact ⟨span, hhas, RunError.pointsTo hspan (hwithin span hhas)⟩

/-- **Every failure points into the source.** -/
theorem runSource_failure {limit : Nat} {source : String} {d : Diagnostic}
    (h : runSource limit source = .failure d) :
    (∃ label, d.labels.filter (·.primary) = [label]) ∧
    (∀ label ∈ d.labels, label.span.Within source.toList) ∧
    ∀ tokens program, Token.scan source = .ok tokens → Program.ofTokens tokens = .ok program →
      ∃ chain node, program.Occurs chain node ∧ d.primarySpan = some node.span := by
  have hpoints : ∃ span, d.PointsTo source.toList span := by
    have hscan := Token.scan_within source
    cases htokens : Token.scan source with
    | error e =>
      rw [htokens] at hscan
      simp only [runSource, compile, tokensOf, htokens, diagnose] at h
      cases h
      exact ⟨e.span, ScanError.pointsTo hscan⟩
    | ok tokens =>
      rw [htokens] at hscan
      cases hprogram : Program.ofTokens tokens with
      | error e =>
        simp only [runSource, compile, tokensOf, htokens, diagnose, ok_bind, hprogram] at h
        cases h
        obtain ⟨hspan, hopened⟩ := (Program.ofTokens_within hscan).2 e hprogram
        exact ⟨e.span, BuildError.pointsTo hspan hopened⟩
      | ok program =>
        obtain ⟨span, -, hpoints⟩ := failure_of_tree htokens hprogram h
        exact ⟨span, hpoints⟩
  obtain ⟨span, hpoints⟩ := hpoints
  obtain ⟨message, hprimary⟩ := hpoints.primary
  refine ⟨⟨_, hprimary⟩, hpoints.within, fun tokens program htokens hprogram => ?_⟩
  obtain ⟨_, ⟨chain, node, hnode, rfl⟩, hpoints⟩ := failure_of_tree htokens hprogram h
  exact ⟨chain, node, hnode, hpoints.primarySpan⟩

/-- The failure that a source text came to. -/
def Verdict.failure? : Verdict → Option Diagnostic
  | .failure d => some d
  | _ => none

theorem Verdict.eq_failure_of_failure? {verdict : Verdict} {d : Diagnostic}
    (h : verdict.failure? = some d) : verdict = .failure d := by
  cases verdict with
  | failure d' => rw [Option.some.inj h]
  | _ => cases h

/-- `"é" - 1` fails when it runs, at the difference; a character of it takes two bytes. `f(1\x7d` fails
when it is built, at the brace, with a second label at the parenthesis. -/
theorem runSource_failure_samples :
    (∃ d tokens program, runSource 9 "\"é\" - 1" = .failure d ∧
      Token.scan "\"é\" - 1" = .ok tokens ∧ Program.ofTokens tokens = .ok program ∧
      (∀ label ∈ d.labels, label.span.Within "\"é\" - 1".toList) ∧ d.primarySpan = some ⟨0, 8⟩ ∧
      ∃ chain node, program.Occurs chain node ∧ node.span = ⟨0, 8⟩) ∧
    ∃ d, runSource 9 "f(1\x7d" = .failure d ∧ d.labels.length = 2 ∧
      (∃ label, d.labels.filter (·.primary) = [label]) ∧
      ∀ label ∈ d.labels, label.span.Within "f(1\x7d".toList := by
  constructor
  · have hfailure : (runSource 9 "\"é\" - 1").failure?.bind Diagnostic.primarySpan =
        some ⟨0, 8⟩ := by
      decide +kernel
    obtain ⟨d, hd, hprimary⟩ := Option.bind_eq_some_iff.1 hfailure
    have h := Verdict.eq_failure_of_failure? hd
    have htree : (Token.scan "\"é\" - 1").toOption.any
        (fun tokens => (Program.ofTokens tokens).isOk) = true := by
      decide +kernel
    obtain ⟨tokens, htokens⟩ := exists_ok_of_isOk
      (by decide +kernel : (Token.scan "\"é\" - 1").isOk = true)
    rw [htokens] at htree
    obtain ⟨program, hprogram⟩ := exists_ok_of_isOk htree
    obtain ⟨-, hwithin, hnode⟩ := runSource_failure h
    obtain ⟨chain, node, hoccurs, hspan⟩ := hnode tokens program htokens hprogram
    rw [hprimary] at hspan
    exact ⟨d, tokens, program, h, htokens, hprogram, hwithin, hprimary, chain, node, hoccurs,
      (Option.some.inj hspan).symm⟩
  · have hfailure : (runSource 9 "f(1\x7d").failure?.map (·.labels.length) = some 2 := by
      decide +kernel
    obtain ⟨d, hd, hlabels⟩ := Option.map_eq_some_iff.1 hfailure
    have h := Verdict.eq_failure_of_failure? hd
    obtain ⟨hone, hwithin, -⟩ := runSource_failure h
    exact ⟨d, h, hlabels, hone, hwithin⟩

end SlotScript
