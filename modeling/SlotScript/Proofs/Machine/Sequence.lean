import SlotScript.Proofs.Machine.Run

/-!
# A program as one chain of steps

A program's statements are run one by one, each by a run of its own with as many steps as it is given.
That is the same as one chain in which they are run like the statements of a block.

**Theorem (`Program.endsWith_iff`).** The chain of a program comes to an end just if the program does
when its statements are given enough steps, and it is the same end.

What has been waiting below all along does not make a difference to a statement (`Step.Leads.onto`), and
a chain with something below falls into what comes before it is touched and what comes after
(`Step.Leads.split`).
-/

namespace SlotScript

open Relation (ReflTransGen)

/-- What a program comes to if this is where its statements lead. -/
def Step.ending? : Step → Option (Ending × Store)
  | .next _ => none
  | .done (.normal value) store | .done (.ret value) store => some (.value value, store)
  | .done .breakLoop store | .done .continueLoop store =>
    some (.error { fault := .impossible .loopControlAtTop }, store)
  | .failed e store => some (.error e, store)

/-! ## Chains that end -/

/-- A flow that nothing waits for ends the run. -/
theorem Machine.step_stop (flow : Flow) (store : Store) :
    Machine.step ⟨.deliver flow, [], store⟩ = .done flow store := by
  cases flow <;> rfl

namespace Step

variable {s t : Step}

/-- A chain that goes on takes the step of the machine. -/
theorem Leads.tail {m : Machine} (h : (Step.next m).Leads t) (ht : ∀ m, t ≠ .next m) :
    m.step.Leads t := by
  rcases h.cases_head with rfl | ⟨_, ⟨_, heq, -, rfl⟩, hrest⟩
  · exact absurd rfl (ht m)
  · cases heq
    exact hrest

/-- Nothing comes after the end. -/
theorem Leads.eq_of_ended (h : s.Leads t) (hs : ∀ m, s ≠ .next m) : t = s := by
  rcases h.cases_head with rfl | ⟨_, ⟨m, rfl, -, -⟩, -⟩
  · rfl
  · exact absurd rfl (hs m)

/-- A chain that stops has delivered its flow. -/
theorem Leads.eq_done {flow : Flow} {store : Store} (h : (Step.deliver flow [] store).Leads t)
    (ht : ∀ m, t ≠ .next m) : t = .done flow store := by
  have hrest := Leads.tail h ht
  rw [Machine.step_stop] at hrest
  refine hrest.eq_of_ended ?_
  intro m h
  cases h

/-- Where a chain ends that has more below, it has come down to that, or it has failed before. -/
theorem Leads.split {below : List Waiting} (h : (s.onto below).Leads t) (ht : ∀ m, t ≠ .next m) :
    (∃ flow store, s.Leads (.done flow store) ∧ (Step.deliver flow below store).Leads t) ∨
      (∃ e store, s.Leads (.failed e store) ∧ t = .failed e store) := by
  generalize hs : s.onto below = larger at h
  induction h using ReflTransGen.head_induction_on generalizing s with
  | refl =>
    cases s with
    | failed e store => exact .inr ⟨e, store, .refl, hs.symm⟩
    | next m => exact absurd hs.symm (ht _)
    | done flow store => exact absurd hs.symm (ht _)
  | head hstep hrest ih =>
    obtain ⟨larger, rfl, -, rfl⟩ := hstep
    cases s with
    | failed e store => cases hs
    | done flow store =>
      cases hs
      exact .inl ⟨flow, store, .refl, .head ⟨_, rfl, trivial, rfl⟩ hrest⟩
    | next m =>
      cases hs
      rcases m.looks_or with hlooks | ⟨flow, store, rfl⟩
      · rcases ih (step_onto below hlooks).symm with ⟨flow, after, hdone, hbelow⟩ | ⟨e, after, hfailed, ht⟩
        · exact .inl ⟨flow, after, (Leads.step rfl).trans hdone, hbelow⟩
        · exact .inr ⟨e, after, (Leads.step rfl).trans hfailed, ht⟩
      · -- the machine would stop: its flow is for what lies below
        have hdone : (Step.deliver flow [] store).Leads (.done flow store) :=
          Leads.step (Machine.step_stop flow store)
        exact .inl ⟨flow, store, hdone, .head ⟨_, rfl, trivial, rfl⟩ hrest⟩

theorem ne_next_of_ending? {last : Ending × Store} (h : t.ending? = some last) : ∀ m, t ≠ .next m := by
  rintro m rfl
  cases h

end Step

/-! ## Statements one after the other -/

section Statements

variable {scope : ScopeId} {store : Store}

/-- A run of the first statement goes on with the others. -/
theorem leads_runBlock {limit : Nat} {statement : Node} (rest : List Node) (last : Value) {flow : Flow}
    {after : Store} (h : Machine.evaluate limit statement scope store = .finished flow after) :
    (Machine.runBlock last (statement :: rest) scope [] store).Leads
      (Machine.step ⟨.deliver flow, [.block rest scope], after⟩) :=
  ((Step.leads_of_evaluate h).onto [.block rest scope]).trans (Step.Leads.step rfl)

/-- Statements that come to an end are a chain. -/
theorem leads_of_runStatements {limit : Nat} {last : Value} {statements : List Node}
    {result : Ending × Store} (h : runStatements limit scope last statements store = result)
    (hresult : result.1 ≠ .unfinished) :
    ∃ t, (Machine.runBlock last statements scope [] store).Leads t ∧ t.ending? = some result := by
  induction statements generalizing last store with
  | nil =>
    subst h
    exact ⟨.done (.normal last) store, Step.Leads.step rfl, rfl⟩
  | cons statement rest ih =>
    rw [runStatements] at h
    cases heval : Machine.evaluate limit statement scope store with
    | finished flow after =>
      have hleads := leads_runBlock rest last heval
      rw [heval] at h
      cases flow with
      | normal value =>
        obtain ⟨t, ht, hend⟩ := ih h
        exact ⟨t, hleads.trans ht, hend⟩
      | ret | breakLoop | continueLoop =>
        subst h
        exact ⟨_, hleads.trans (Step.Leads.step rfl), rfl⟩
    | failed e after =>
      have hfails : (Machine.runAfter limit (.eval statement scope [] store)).step? =
          some (.failed e after) := by
        have hrun : Machine.runAfter limit (.eval statement scope [] store) = .failed e after := heval
        rw [hrun]
        rfl
      rw [heval] at h
      subst h
      exact ⟨.failed e after, (Step.leads_of_runAfter hfails).onto [.block rest scope], rfl⟩
    | unfinished m =>
      rw [heval] at h
      subst h
      exact absurd rfl hresult

/-- With enough steps for each, statements come to where their chain ends. -/
theorem runStatements_of_leads {last : Value} {statements : List Node} {t : Step} {result : Ending × Store}
    (h : (Machine.runBlock last statements scope [] store).Leads t) (hend : t.ending? = some result) :
    ∃ n, ∀ limit, n ≤ limit → runStatements limit scope last statements store = result := by
  have ht := Step.ne_next_of_ending? hend
  induction statements generalizing last store with
  | nil =>
    cases Step.Leads.eq_done h ht
    cases hend
    exact ⟨0, fun limit _ => rfl⟩
  | cons statement rest ih =>
    have hsplit : ((Step.eval statement scope [] store).onto [.block rest scope]).Leads t := h
    rcases hsplit.split ht with ⟨flow, after, hdone, hbelow⟩ | ⟨e, after, hfailed, rfl⟩
    · obtain ⟨n, hn⟩ := hdone.runAfter_of_le
      have heval : ∀ limit, n ≤ limit →
          Machine.evaluate limit statement scope store = .finished flow after := hn
      have hrest := Step.Leads.tail hbelow ht
      cases flow with
      | normal value =>
        obtain ⟨n', hn'⟩ := ih hrest
        refine ⟨max n n', fun limit hlimit => ?_⟩
        rw [runStatements, heval limit (Nat.le_trans (Nat.le_max_left n n') hlimit)]
        exact hn' limit (Nat.le_trans (Nat.le_max_right n n') hlimit)
      | ret | breakLoop | continueLoop =>
        cases Step.Leads.eq_done hrest ht
        cases hend
        exact ⟨n, fun limit hlimit => by rw [runStatements, heval limit hlimit]⟩
    · obtain ⟨n, hn⟩ := hfailed.runAfter_of_le
      have heval : ∀ limit, n ≤ limit →
          Machine.evaluate limit statement scope store = .failed e after := hn
      cases hend
      exact ⟨n, fun limit hlimit => by rw [runStatements, heval limit hlimit]⟩

end Statements

/-! ## Programs -/

namespace Program

variable {program : Program} {seeds : List (String × Value)} {result : Ending × Store}

/-- The first step of a program whose statements are run like those of a block. -/
def opening (program : Program) (seeds : List (String × Value)) : Step :=
  let opened := (Store.seeded seeds).openScope program.shape none
  Machine.runBlock .null program.body opened.1 [] opened.2

/-- The program comes to an end, and this is what it comes to. -/
def EndsWith (program : Program) (seeds : List (String × Value)) (result : Ending × Store) : Prop :=
  ∃ t, (program.opening seeds).Leads t ∧ t.ending? = some result

/-- A program that comes to an end comes to it with any number of steps that is large enough. -/
theorem EndsWith.interpret (h : program.EndsWith seeds result) :
    ∃ n, ∀ limit, n ≤ limit → program.interpret limit seeds = result := by
  obtain ⟨t, hleads, hend⟩ := h
  exact runStatements_of_leads hleads hend

theorem endsWith_of_interpret {limit : Nat} (h : program.interpret limit seeds = result)
    (hresult : result.1 ≠ .unfinished) : program.EndsWith seeds result :=
  leads_of_runStatements h hresult

theorem EndsWith.ne_unfinished (h : program.EndsWith seeds result) : result.1 ≠ .unfinished := by
  obtain ⟨t, -, hend⟩ := h
  intro hresult
  cases t with
  | next m => cases hend
  | failed e store =>
    cases hend
    cases hresult
  | done flow store =>
    cases flow <;>
      · cases hend
        cases hresult

/-- **The chain of a program and its bounded runs come to the same ends.** -/
theorem endsWith_iff : program.EndsWith seeds result ↔
    result.1 ≠ .unfinished ∧ ∃ limit, program.interpret limit seeds = result := by
  constructor
  · intro h
    obtain ⟨n, hn⟩ := h.interpret
    exact ⟨h.ne_unfinished, n, hn n (Nat.le_refl n)⟩
  · rintro ⟨hresult, limit, h⟩
    exact endsWith_of_interpret h hresult

end Program

end SlotScript
