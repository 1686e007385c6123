import SlotScript.Scope.Resolve
import SlotScript.Proofs.Result
import SlotScript.Proofs.Tree.Unbraced

/-!
# A bare block opens no scope

**Theorem (`Program.Splices.resolve`).** A program is resolved just if it is without the braces of one
of its bare blocks, and where it is not, the error is the same. The two results differ in those braces
and in nothing else: all places, all shapes and the shape of the program are the same.

The resolver walks the statements of a bare block from the scope that it has come to, and goes on from
the scope that they leave behind. So it does with the statements themselves.
-/

namespace SlotScript

variable {α β γ : Type}

/-! ## Walks that come to the same scope -/

/-- Both walks end with one error, or they come to one scope with parts that are related. -/
inductive Alike (R : α → α → Prop) :
    Except ScopeError (α × Context) → Except ScopeError (α × Context) → Prop
  | ok {a b : α} (here : Context) (h : R a b) : Alike R (.ok (a, here)) (.ok (b, here))
  | error (e : ScopeError) : Alike R (.error e) (.error e)

namespace Alike

variable {R : α → α → Prop} {R' : β → β → Prop}

theorem bind {x y : Except ScopeError (α × Context)}
    {f g : α × Context → Except ScopeError (β × Context)} (h : Alike R x y)
    (hnext : ∀ a b here, R a b → Alike R' (f (a, here)) (g (b, here))) :
    Alike R' (x >>= f) (y >>= g) := by
  cases h with
  | ok here h => exact hnext _ _ here h
  | error e => exact .error e

/-- Both walks begin in one way. -/
theorem after {x : Except ScopeError γ} {f g : γ → Except ScopeError (α × Context)}
    (h : ∀ a, x = .ok a → Alike R (f a) (g a)) : Alike R (x >>= f) (x >>= g) := by
  cases x with
  | ok a => exact h a rfl
  | error e => exact .error e

end Alike

/-! ## One part of a list -/

section Lists

variable {inLoop : Bool} {outer : List Context}

theorem resolveAll_append (before after : List Node) (here : Context) :
    resolveAll inLoop outer here (before ++ after) = do
      let first ← resolveAll inLoop outer here before
      let second ← resolveAll inLoop outer first.2 after
      return (first.1 ++ second.1, second.2) := by
  induction before generalizing here with
  | nil =>
    rw [List.nil_append, resolveAll, ok_bind]
    exact (bind_pure _).symm
  | cons node rest ih =>
    simp only [List.cons_append, resolveAll, ih, bind_assoc, pure_bind]

theorem length_resolveAll {nodes resolved : List Node} {here there : Context}
    (h : resolveAll inLoop outer here nodes = .ok (resolved, there)) :
    resolved.length = nodes.length := by
  induction nodes generalizing resolved here there with
  | nil =>
    cases h
    rfl
  | cons node rest ih =>
    rw [resolveAll, bind_eq_ok_iff] at h
    obtain ⟨walked, -, h⟩ := h
    rw [bind_eq_ok_iff] at h
    obtain ⟨walkedRest, hrest, h⟩ := h
    cases h
    rw [List.length_cons, List.length_cons, ih hrest]

/-- One node of a list is walked otherwise. -/
theorem Alike.all {R : Node → Node → Prop} {a b : Node}
    (h : ∀ here, Alike R (a.resolve inLoop outer here) (b.resolve inLoop outer here))
    (before after : List Node) (here : Context) :
    Alike (fun nodes others => ∃ before' a' b' after', before'.length = before.length ∧ R a' b' ∧
        nodes = before' ++ a' :: after' ∧ others = before' ++ b' :: after')
      (resolveAll inLoop outer here (before ++ a :: after))
      (resolveAll inLoop outer here (before ++ b :: after)) := by
  rw [resolveAll_append, resolveAll_append]
  refine .after fun first hfirst => .bind (R := fun nodes others => ∃ a' b' after', R a' b' ∧
    nodes = a' :: after' ∧ others = b' :: after') ?_ ?_
  · exact (h first.2).bind fun a' b' there hR => .after fun rest _ => .ok rest.2 ⟨_, _, _, hR, rfl, rfl⟩
  · rintro nodes others there ⟨a', b', after', hR, rfl, rfl⟩
    exact .ok there ⟨first.1, a', b', after', length_resolveAll hfirst, hR, rfl, rfl⟩

/-- **The statements of a bare block are walked as if they stood in its place.** -/
theorem Alike.spliced {body : List Node} (hbody : body ≠ []) (before after : List Node) (inner : Span)
    (here : Context) :
    Alike (fun nodes others => ∃ before' body' after', before'.length = before.length ∧ body' ≠ [] ∧
        nodes = before' ++ .block body' inner :: after' ∧ others = before' ++ (body' ++ after'))
      (resolveAll inLoop outer here (before ++ .block body inner :: after))
      (resolveAll inLoop outer here (before ++ (body ++ after))) := by
  rw [resolveAll_append, resolveAll_append]
  refine .after fun first hfirst => ?_
  rw [resolveAll_append, resolveAll, Node.resolve]
  cases hwalk : resolveAll inLoop outer first.2 body with
  | error e => exact .error e
  | ok walked =>
    simp only [ok_bind, pure_bind]
    cases hrest : resolveAll inLoop outer walked.2 after with
    | error e => exact .error e
    | ok rest =>
      refine .ok rest.2 ⟨first.1, walked.1, rest.1, length_resolveAll hfirst, ?_, rfl, rfl⟩
      have hlength := length_resolveAll hwalk
      exact List.ne_nil_of_length_pos (by rw [hlength]; exact List.length_pos_iff.mpr hbody)

/-- A part that is there is walked otherwise. -/
theorem Alike.option {R : Node → Node → Prop} {R' : α → α → Prop} {a b : Node} {here : Context}
    {f g : Option Node × Context → Except ScopeError (α × Context)}
    (h : Alike R (a.resolve inLoop outer here) (b.resolve inLoop outer here))
    (hnext : ∀ a b there, R a b → Alike R' (f (some a, there)) (g (some b, there))) :
    Alike R' (resolveOption inLoop outer here (some a) >>= f)
      (resolveOption inLoop outer here (some b) >>= g) := by
  rw [resolveOption, resolveOption, bind_assoc, bind_assoc]
  exact h.bind fun a b there hR => hnext a b there hR

/-- The default of one parameter is walked otherwise. -/
theorem Alike.params {R : Node → Node → Prop} {a b : Node}
    (h : ∀ here, Alike R (a.resolve inLoop outer here) (b.resolve inLoop outer here))
    (before after : List Param) (name : String) (inner : Span) (here : Context) :
    Alike (fun params others => ∃ before' a' b' after', before'.length = before.length ∧ R a' b' ∧
        params = before' ++ .mk name (some a') inner :: after' ∧
        others = before' ++ .mk name (some b') inner :: after')
      (resolveParams inLoop outer here (before ++ .mk name (some a) inner :: after))
      (resolveParams inLoop outer here (before ++ .mk name (some b) inner :: after)) := by
  induction before generalizing here with
  | nil =>
    exact (h here).option fun a' b' there hR => .after fun rest _ =>
      .ok rest.2 ⟨[], a', b', rest.1, rfl, hR, rfl, rfl⟩
  | cons param before ih =>
    obtain ⟨other, default, span⟩ := param
    refine .after fun value _ => (ih value.2).bind ?_
    rintro _ _ there ⟨before', a', b', after', hlength, hR, rfl, rfl⟩
    exact .ok there ⟨.mk other value.1 span :: before', a', b', after', congrArg (· + 1) hlength, hR, rfl,
      rfl⟩

theorem length_resolveParams {params resolved : List Param} {here there : Context}
    (h : resolveParams inLoop outer here params = .ok (resolved, there)) :
    resolved.length = params.length := by
  induction params generalizing resolved here there with
  | nil =>
    cases h
    rfl
  | cons param rest ih =>
    obtain ⟨name, default, span⟩ := param
    rw [resolveParams, bind_eq_ok_iff] at h
    obtain ⟨value, -, h⟩ := h
    rw [bind_eq_ok_iff] at h
    obtain ⟨walked, hrest, h⟩ := h
    cases h
    rw [List.length_cons, List.length_cons, ih hrest]

end Lists

/-- A default has nothing to do with the names of the parameters. -/
theorem Param.names_default (a b : Node) (before after : List Param) (name : String) (inner : Span) :
    (before ++ .mk name (some a) inner :: after).map Param.name =
      (before ++ .mk name (some b) inner :: after).map Param.name := by
  rw [List.map_append, List.map_append, List.map_cons, List.map_cons, Param.name, Param.name]

/-! ## Trees and programs -/

theorem Node.Splices.resolve {path : List Nat} {a b : Node} (h : a.Splices path b) (inLoop : Bool)
    (outer : List Context) (here : Context) :
    Alike (Node.Splices path) (a.resolve inLoop outer here) (b.resolve inLoop outer here) := by
  induction h generalizing inLoop outer here with
  | here hbody =>
    refine (Alike.spliced hbody _ _ _ here).bind ?_
    rintro _ _ there ⟨before', body', after', hlength, hbody', rfl, rfl⟩
    rw [← hlength]
    exact .ok there (.here hbody')
  | statement _ ih =>
    refine (Alike.all (ih inLoop outer) _ _ here).bind ?_
    rintro _ _ there ⟨before', a', b', after', hlength, h, rfl, rfl⟩
    rw [← hlength]
    exact .ok there (.statement h)
  | operand _ ih => exact (ih ..).bind fun _ _ there h => .ok there (.operand h)
  | left _ ih => exact (ih ..).bind fun _ _ there h => .after fun right _ => .ok right.2 (.left h)
  | right _ ih => exact .after fun left _ => (ih ..).bind fun _ _ there h => .ok there (.right h)
  | value _ ih =>
    cases ‹DeclKind› with
    | plain =>
      exact (ih ..).bind fun _ _ there h => .after fun target _ => .ok target.2 (.value h)
    | var | const => exact (ih ..).bind fun _ _ there h => .ok there (.value h)
  | cond _ ih =>
    exact (ih ..).bind fun _ _ there h => .after fun yes _ => .after fun no _ => .ok there (.cond h)
  | yes _ ih =>
    exact .after fun cond _ => (ih ..).bind fun _ _ yes h => .after fun no _ => .ok cond.2 (.yes h)
  | no _ ih =>
    exact .after fun cond _ => .after fun yes _ => (ih ..).option fun _ _ no h => .ok cond.2 (.no h)
  | whileCond _ ih =>
    exact (ih ..).bind fun _ _ header h => .after fun body _ => .ok here (.whileCond h)
  | whileBody _ ih =>
    exact .after fun cond _ => (ih ..).bind fun _ _ body h => .ok here (.whileBody h)
  | forInit _ ih =>
    exact (ih ..).option fun _ _ header h => .after fun cond _ => .after fun step _ =>
      .after fun body _ => .ok here (.forInit h)
  | forCond _ ih =>
    exact .after fun init _ => (ih ..).option fun _ _ header h => .after fun step _ =>
      .after fun body _ => .ok here (.forCond h)
  | forStep _ ih =>
    exact .after fun init _ => .after fun cond _ => (ih ..).option fun _ _ header h =>
      .after fun body _ => .ok here (.forStep h)
  | forBody _ ih =>
    exact .after fun init _ => .after fun cond _ => .after fun step _ => (ih ..).bind fun _ _ body h =>
      .ok here (.forBody h)
  | default _ ih =>
    cases ‹Option VarRef› with
    | none | some =>
      refine (Alike.params (ih inLoop outer) _ _ _ _ _).bind ?_
      rintro _ _ there ⟨before', a', b', after', hlength, h, rfl, rfl⟩
      rw [← hlength]
      simp only [Param.names_default a' b']
      exact .after fun body _ => .ok there (.default h)
  | body _ ih =>
    cases ‹Option VarRef› with
    | none | some =>
      refine .after fun params hparams => ?_
      rw [← length_resolveParams hparams]
      exact (ih ..).bind fun _ _ body h => .ok params.2 (.body h)
  | callee _ ih => exact (ih ..).bind fun _ _ there h => .after fun args _ => .ok args.2 (.callee h)
  | argument _ ih =>
    refine .after fun callee _ => (Alike.all (ih inLoop outer) _ _ callee.2).bind ?_
    rintro _ _ there ⟨before', a', b', after', hlength, h, rfl, rfl⟩
    rw [← hlength]
    exact .ok there (.argument h)
  | ret _ ih => exact (ih ..).option fun _ _ there h => .ok there (.ret h)

namespace Program.Splices

variable {path : List Nat} {program other : Program}

/-- **A bare block is transparent to the resolver.** There is the same error, or there are two results
that differ in the braces of the same block alone. -/
theorem resolve (h : program.Splices path other) :
    (∃ e, program.resolve = .error e ∧ other.resolve = .error e) ∨
      ∃ resolved spliced, program.resolve = .ok resolved ∧ other.resolve = .ok spliced ∧
        resolved.Splices path spliced := by
  have hwalks := h.1.resolve false [] (.fresh .program)
  rw [Node.resolve, Node.resolve] at hwalks
  rw [Program.resolve, Program.resolve]
  cases hbody : resolveAll false [] (.fresh .program) program.body with
  | error e =>
    rw [hbody] at hwalks
    cases hother : resolveAll false [] (.fresh .program) other.body with
    | error e' =>
      rw [hother] at hwalks
      cases hwalks
      exact .inl ⟨e, rfl, rfl⟩
    | ok walked =>
      rw [hother] at hwalks
      cases hwalks
  | ok walked =>
    rw [hbody] at hwalks
    cases hother : resolveAll false [] (.fresh .program) other.body with
    | error e' =>
      rw [hother] at hwalks
      cases hwalks
    | ok walked' =>
      obtain ⟨body, scope⟩ := walked
      obtain ⟨body', scope'⟩ := walked'
      rw [hother] at hwalks
      cases hwalks with
      | ok _ hsplices => exact .inr ⟨_, _, rfl, rfl, hsplices, rfl⟩

end Program.Splices

end SlotScript
