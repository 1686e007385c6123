import Mathlib
import SlotScript.Proofs.Tree.Act
import SlotScript.Proofs.Tree.Change
import SlotScript.Proofs.Tree.Fed
import SlotScript.Proofs.Tree.Feed
import SlotScript.Proofs.Tree.Within

/-!
# Numbers of functions without a name

The builder counts the functions without a name and makes up a name from the number of each. It looks
at the number only then: whatever else a token does, it does with any number (`feed_numbered`).

So a builder that starts with another number builds the same, up to the made-up names
(`foldlM_feed_renumbered`), and the number at the end is that of the keywords after which no name
comes (`anonymous_foldlM`).
-/

namespace SlotScript

namespace Builder

/-- The builder with another number of functions without a name. -/
def numbered (b : Builder) (k : Nat) : Builder := { b with anonymous := k }

variable {b b' : Builder}

theorem numbered_setLevel (b : Builder) (k : Nat) (level : Level) :
    (b.numbered k).setLevel level = (b.setLevel level).numbered k := by
  rcases b with ⟨root, _ | ⟨frame, outer⟩, expectation, previous, anonymous⟩ <;> rfl

theorem numbered_mapLevel (b : Builder) (k : Nat) (f : Level → Level) :
    (b.numbered k).mapLevel f = (b.mapLevel f).numbered k := numbered_setLevel b k _

/-- A step that does not look at the number. -/
def Blind (step : Builder → Except BuildError Builder) : Prop :=
  ∀ b k, step (b.numbered k) = (step b).map (·.numbered k)

theorem blind_ok {f : Builder → Builder} (h : ∀ b k, f (b.numbered k) = (f b).numbered k) :
    Blind fun b => .ok (f b) := fun b k => congrArg Except.ok (h b k)

theorem blind_error (e : BuildError) : Blind fun _ => .error e := fun _ _ => rfl

theorem Blind.bind {step next : Builder → Except BuildError Builder} (h : Blind step)
    (hnext : Blind next) : Blind fun b => step b >>= next := by
  intro b k
  simp only [h b k]
  cases step b with
  | error e => rfl
  | ok b' => exact hnext b' k

theorem blind_tryLevel (f : Level → Except BuildError Level) : Blind (·.tryLevel f) := by
  intro b k
  simp only [tryLevel]
  rw [show (b.numbered k).level = b.level from rfl]
  cases f b.level with
  | error e => rfl
  | ok level => exact congrArg Except.ok (numbered_setLevel b k level)

/-- What is done after a computation that does not look at the builder. -/
theorem blind_after {α : Type} (x : Except BuildError α)
    {step : α → Builder → Except BuildError Builder} (h : ∀ a, Blind (step a)) :
    Blind fun b => x >>= fun a => step a b := by
  cases x with
  | error e => exact blind_error e
  | ok a => exact h a

theorem blind_finishCall (callee : Node) (opening close : Span) (level : Level) :
    Blind fun b => b.finishCall callee opening close level := by
  refine blind_after _ fun level => blind_after _ fun args => blind_ok fun b k => ?_
  rw [numbered_mapLevel]
  rfl

theorem blind_finishHeader (construct : Construct) (span close : Span) (level : Level) :
    Blind fun b => b.finishHeader construct span close level := by
  refine blind_after _ fun level => blind_after _ fun item => blind_ok fun b k => ?_
  rw [numbered_mapLevel]
  rfl

theorem blind_finishParams (name : String) (anonymous : Bool) (span close : Span) (level : Level) :
    Blind fun b => b.finishParams name anonymous span close level :=
  blind_after _ fun _ => blind_after _ fun _ => blind_after _ fun _ => blind_ok fun _ _ => rfl

theorem blind_finishBlock (head : Option FunctionHead) (opening close : Span) (level : Level) :
    Blind fun b => b.finishBlock head opening close level := by
  refine blind_after _ fun level => ?_
  cases head with
  | none =>
    refine blind_ok fun b k => ?_
    rw [numbered_mapLevel]
    rfl
  | some head => exact blind_after _ fun node => blind_ok fun b k => numbered_mapLevel b k _

theorem blind_closeParen (span : Span) : Blind (·.closeParen span) := by
  rintro ⟨root, frames, expectation, previous, anonymous⟩ k
  let b : Builder := ⟨root, frames, expectation, previous, anonymous⟩
  change (b.numbered k).closeParen span = (b.closeParen span).map _
  unfold closeParen
  rw [show (b.numbered k).level = b.level from rfl]
  cases b.level.groups with
  | cons opening groups => exact congrArg Except.ok (numbered_mapLevel b k _)
  | nil =>
    rcases frames with _ | ⟨⟨opener, place, level⟩, outer⟩
    · rfl
    · cases opener with
      | block head => rfl
      | call callee => exact blind_finishCall callee place span level ⟨root, outer, _, _, _⟩ k
      | header construct => exact blind_finishHeader construct place span level ⟨root, outer, _, _, _⟩ k
      | params name unnamed =>
        exact blind_finishParams name unnamed place span level ⟨root, outer, _, _, _⟩ k

theorem blind_closeBrace (span : Span) : Blind (·.closeBrace span) := by
  rintro ⟨root, frames, expectation, previous, anonymous⟩ k
  let b : Builder := ⟨root, frames, expectation, previous, anonymous⟩
  change (b.numbered k).closeBrace span = (b.closeBrace span).map _
  unfold closeBrace
  rw [show (b.numbered k).level = b.level from rfl]
  cases b.level.groups with
  | cons opening groups => rfl
  | nil =>
    rcases frames with _ | ⟨⟨opener, place, level⟩, outer⟩
    · rfl
    · cases opener with
      | block head => exact blind_finishBlock head place span level ⟨root, outer, _, _, _⟩ k
      | _ => rfl

theorem blind_openParen (previous : Previous) (span : Span) :
    Blind fun b => .ok (b.openParen previous span) := by
  refine blind_ok fun b k => ?_
  rcases called_or_grouped previous b.level.run with ⟨callee, rest, hrun, hcallable⟩ | hgroup
  · rw [openParen_call hrun hcallable, openParen_call (b := b.numbered k) hrun hcallable,
      numbered_mapLevel]
    rfl
  · rw [openParen_group hgroup, openParen_group (b := b.numbered k) hgroup, numbered_mapLevel]

theorem blind_start (expectation : Expectation) : Blind (·.start expectation) :=
  (blind_tryLevel _).bind (blind_ok fun _ _ => rfl)

theorem blind_semicolon (span : Span) : Blind (·.semicolon span) := by
  intro b k
  have hend : (b.numbered k).endStatement = b.endStatement.map (·.numbered k) := by
    unfold endStatement
    rw [show (b.numbered k).level = b.level from rfl]
    cases b.level.groups with
    | cons opening groups => rfl
    | nil => exact blind_tryLevel _ b k
  simp only [semicolon]
  rw [show (b.numbered k).opener? = b.opener? from rfl, show (b.numbered k).level = b.level from rfl]
  split
  · exact hend
  · exact hend
  · exact blind_tryLevel _ b k
  · rfl

theorem blind_comma (span : Span) : Blind (·.comma span) := by
  intro b k
  simp only [comma]
  rw [show (b.numbered k).opener? = b.opener? from rfl, show (b.numbered k).level = b.level from rfl]
  split
  · exact blind_tryLevel _ b k
  · exact blind_tryLevel _ b k
  · rfl

theorem blind_equals (span : Span) : Blind (·.equals span) := by
  intro b k
  simp only [equals]
  rw [show (b.numbered k).level = b.level from rfl]
  split
  · exact congrArg Except.ok (numbered_mapLevel b k _)
  · rfl
  · rfl

theorem blind_otherwise (span : Span) : Blind (·.otherwise span) := by
  refine (blind_tryLevel Level.closeExpression).bind fun b k => ?_
  rw [show (b.numbered k).level = b.level from rfl]
  split
  · exact congrArg Except.ok (numbered_mapLevel b k _)
  · rfl

theorem blind_handle (previous : Previous) (token : Token) : Blind (·.handle previous token) := by
  obtain ⟨act, hact, heq⟩ := exists_act previous token
  simp only [heq]
  cases hact with
  | operand node => exact blind_ok fun b k => numbered_mapLevel b k _
  | operator op base => exact blind_ok fun b k => numbered_mapLevel b k _
  | openParen => exact blind_openParen previous token.span
  | closeParen => exact blind_closeParen token.span
  | closeBrace => exact blind_closeBrace token.span
  | comma => exact blind_comma token.span
  | equals => exact blind_equals token.span
  | semicolon => exact blind_semicolon token.span
  | function keyword => exact blind_ok fun _ _ => rfl
  | openBrace => exact (blind_tryLevel _).bind (blind_ok fun _ _ => rfl)
  | start expectation => exact blind_start expectation
  | otherwise => exact blind_otherwise token.span
  | nothing => exact blind_ok fun _ _ => rfl
  | fails e => exact blind_error e

theorem blind_openAt (token : Token) (keyword : String) (opener : Opener) (span : Span) :
    Blind (·.openAt token keyword opener span) := by
  unfold openAt
  by_cases h : token.kind = .word "("
  · simp only [if_pos h]
    exact blind_ok fun _ _ => rfl
  · simp only [if_neg h]
    exact blind_error _

theorem blind_bodyToken (token : Token) (head : FunctionHead) (anonymous : Bool) :
    Blind (·.bodyToken token head anonymous) := by
  unfold bodyToken
  by_cases h : token.kind ≠ .word "\x7b"
  · simp only [if_pos h]
    exact blind_error _
  · simp only [if_neg h]
    cases anonymous with
    | true => exact blind_ok fun _ _ => rfl
    | false =>
      refine blind_ok fun b k => ?_
      rw [numbered_mapLevel]
      rfl

theorem blind_targetToken (token : Token) (decl : DeclKind) (span : Span) :
    Blind (·.targetToken token decl span) := by
  unfold targetToken
  cases nameOf? token with
  | some name => exact blind_ok fun _ _ => rfl
  | none => exact blind_error _

theorem blind_declareBare (decl : DeclKind) (name : String) (span : Span) :
    Blind (·.declareBare decl name span) := by
  cases decl with
  | const => exact blind_error _
  | _ => exact blind_ok fun b k => numbered_mapLevel b k _

theorem blind_initializerToken (previous : Previous) (token : Token) (decl : DeclKind)
    (name : String) (span : Span) : Blind (·.initializerToken previous token decl name span) := by
  unfold initializerToken
  by_cases h : token.kind = .word "="
  · simp only [if_pos h]
    exact blind_ok fun b k => numbered_mapLevel b k _
  · simp only [if_neg h]
    exact (blind_declareBare decl name span).bind (blind_handle previous token)

theorem blind_otherwiseToken (previous : Previous) (token : Token) :
    Blind (·.otherwiseToken previous token) := by
  unfold otherwiseToken
  by_cases h : token.kind = .word "else"
  · simp only [if_pos h]
    exact blind_handle previous token
  · simp only [if_neg h]
    exact (blind_tryLevel Level.closeLine).bind (blind_handle previous token)

/-- Only the token after a function's keyword looks at the number. -/
theorem feed_numbered (hfunction : b.expectation.isFunction = false) (k : Nat) (token : Token) :
    (b.numbered k).feed token = (b.feed token).map (·.numbered k) := by
  rcases b with ⟨root, frames, expectation, previous, anonymous⟩
  let b : Builder := ⟨root, frames, .any, .token token.kind, anonymous⟩
  cases expectation with
  | any => exact blind_handle previous token b k
  | header construct span => exact blind_openAt token _ _ span b k
  | function keyword span => cases hfunction
  | params name keyword span => exact blind_openAt token _ _ span b k
  | body head unnamed close => exact blind_bodyToken token head unnamed b k
  | target decl span => exact blind_targetToken token decl span b k
  | initializer decl name span => exact blind_initializerToken previous token decl name span b k
  | otherwise => exact blind_otherwiseToken previous token b k

theorem anonymous_eq_of_map_numbered {x : Except BuildError Builder} {k : Nat}
    (h : x = x.map (·.numbered k)) (hok : x = .ok b) : b.anonymous = k := by
  rw [hok] at h
  have hb : b = b.numbered k := Except.ok.inj h
  rw [hb]
  rfl

/-! ## Starting with another number -/

/-- The builder with the number raised. -/
def raised (n : Nat) (b : Builder) : Builder := b.numbered (b.anonymous + n)

end Builder

/-- One after the other, with the number raised. -/
def Numbering.shifted (n : Nat) : Numbering := ⟨(· + 1), fun k => Numbering.counted.name (k + n)⟩

/-- The made-up name with its number raised. -/
def renumbered (n : Nat) (name : String) : String :=
  match (String.ofList (name.toList.drop 5)).toNat? with
  | some k => Numbering.counted.name (k + n)
  | none => name

theorem renumbered_counted (n k : Nat) :
    renumbered n (Numbering.counted.name k) = Numbering.counted.name (k + n) := by
  have hdigits : String.ofList ((Numbering.counted.name k).toList.drop 5) = k.repr := by
    have hname : (Numbering.counted.name k).toList = "anon#".toList ++ k.repr.toList :=
      String.toList_append
    rw [hname, List.drop_left' (by rfl), String.ofList_toList]
  rw [renumbered, hdigits, Nat.toNat?_repr]

/-- Nothing but the numbers of the functions without a name, which are raised. -/
def Change.shifted (n : Nat) : Change :=
  { Motion.still.change with
    name := renumbered n
    numbering := .shifted n
    name_counted := renumbered_counted n
    count_succ := fun _ => rfl }

theorem Change.solid_shifted (n : Nat) : (Change.shifted n).Solid := fun _ _ => rfl

theorem Change.keeps_shifted (n : Nat) (kind : TokenKind) : (Change.shifted n).Keeps kind :=
  fun _ _ _ => rfl

theorem BuildError.change_shifted (n : Nat) (e : BuildError) : e.change (.shifted n) = e := by
  rcases e with ⟨fault, span, _ | opened⟩ <;> rfl

namespace Builder

variable {b b' : Builder}

theorem map_raised {x : Except BuildError Builder} {k : Nat} (h : x = x.map (·.numbered k)) (n : Nat) :
    x.map (raised n) = x.map (·.numbered (k + n)) := by
  cases hok : x with
  | error e => rfl
  | ok b' =>
    have hsame := anonymous_eq_of_map_numbered h hok
    exact congrArg (fun k => Except.ok (b'.numbered (k + n))) hsame

theorem Blind.raised {step : Builder → Except BuildError Builder} (h : Blind step) (b : Builder)
    (n : Nat) : (step b).map (raised n) = step (b.raised n) :=
  (map_raised (h b b.anonymous) n).trans (h b _).symm

theorem raised_feed (hfunction : b.expectation.isFunction = false) (n : Nat) (token : Token) :
    (b.feed token).map (raised n) = (b.raised n).feed token :=
  (map_raised (feed_numbered hfunction b.anonymous token) n).trans
    (feed_numbered hfunction _ token).symm

theorem feedBy_eq_feed (hfunction : b.expectation.isFunction = false) (numbering : Numbering)
    (token : Token) : b.feedBy numbering token = b.feed token := by
  unfold feedBy
  split
  · rename_i heq
    rw [heq] at hfunction
    cases hfunction
  · rfl

/-- Counting from a higher number, or raising the numbers afterwards, is the same. -/
theorem raised_feedBy (n : Nat) (b : Builder) (token : Token) :
    (b.feedBy (.shifted n) token).map (raised n) = (b.raised n).feed token := by
  cases hfunction : b.expectation.isFunction with
  | false => rw [feedBy_eq_feed hfunction, raised_feed hfunction]
  | true =>
    rcases b with ⟨root, frames, expectation, previous, anonymous⟩
    cases expectation with
    | function keyword span =>
      let b : Builder := ⟨root, frames, .any, .token token.kind, anonymous⟩
      change (b.functionTokenBy _ token keyword span).map _ =
        (b.raised n).functionToken token keyword span
      unfold functionTokenBy functionToken
      cases nameOf? token with
      | some name => exact (blind_start (.params name keyword span)).raised b n
      | none =>
        have hopen := blind_openAt token keyword
          (.params (Numbering.counted.name (anonymous + n)) true) span
        refine (hopen.raised (b.numbered (anonymous + 1)) n).trans ?_
        exact congrArg (fun k => (b.numbered k).openAt token keyword _ span)
          (Nat.add_right_comm anonymous 1 n)
    | _ => cases hfunction

theorem raised_foldlM (n : Nat) (b : Builder) (tokens : List Token) :
    (tokens.foldlM (feedBy (.shifted n)) b).map (raised n) =
      tokens.foldlM feed (b.raised n) := by
  induction tokens generalizing b with
  | nil => rfl
  | cons token rest ih =>
    rw [List.foldlM_cons, List.foldlM_cons, ← raised_feedBy]
    cases b.feedBy (.shifted n) token with
    | error e => rfl
    | ok b' => exact ih b'

/-- The builder with the numbers of the functions without a name raised, those it has made up names
of and those it will. -/
def renumbered (n : Nat) (b : Builder) : Builder := (b.change (.shifted n)).raised n

/-- What is built with a higher number is what is built without, renumbered. -/
theorem foldlM_feed_renumbered (n : Nat) (b : Builder) (tokens : List Token) :
    tokens.foldlM feed (b.renumbered n) = (tokens.foldlM feed b).map (renumbered n) := by
  have hfollows := b.foldlM_feed_change (.shifted n) tokens fun token _ =>
    Change.keeps_shifted n token.kind
  have htokens : tokens.map (Token.change (.shifted n)) = tokens := List.map_id tokens
  rw [htokens] at hfollows
  rw [renumbered, ← raised_foldlM]
  cases hread : tokens.foldlM feed b with
  | ok b' =>
    rw [hread] at hfollows
    have hfollows : tokens.foldlM (feedBy (.shifted n)) (b.change (.shifted n)) =
      .ok (b'.change (.shifted n)) := hfollows
    rw [hfollows]
    rfl
  | error e =>
    rw [hread] at hfollows
    have hfollows : tokens.foldlM (feedBy (.shifted n)) (b.change (.shifted n)) =
      .error (e.change (.shifted n)) := hfollows (Change.solid_shifted n)
    rw [hfollows, BuildError.change_shifted]
    rfl

theorem finish_numbered (b : Builder) (k : Nat) (ending : Option Span) :
    (b.numbered k).finish ending = b.finish ending := by
  rcases b with ⟨root, frames, expectation, previous, anonymous⟩
  let b : Builder := ⟨root, frames, expectation, previous, anonymous⟩
  have hsettle : (b.numbered k).settle ending = (b.settle ending).map (·.numbered k) := by
    cases expectation with
    | initializer decl name span => exact blind_declareBare decl name span b k
    | otherwise => exact blind_tryLevel Level.closeLine b k
    | _ => rfl
  change (b.numbered k).settle ending >>= _ = b.settle ending >>= _
  rw [hsettle]
  cases b.settle ending with
  | error e => rfl
  | ok b' => rfl

theorem finish_renumbered (n : Nat) (b : Builder) (ending : Option Span) :
    (b.renumbered n).finish ending = (b.finish ending).map (Program.change (.shifted n)) := by
  have hfollows := b.finish_change (.shifted n) ending
  have hending : ending.map (Change.shifted n).span = ending := Option.map_id_apply
  rw [hending] at hfollows
  rw [renumbered, raised, finish_numbered]
  cases hfinish : b.finish ending with
  | ok program =>
    rw [hfinish] at hfollows
    exact hfollows
  | error e =>
    rw [hfinish] at hfollows
    exact (hfollows (Change.solid_shifted n)).trans (by rw [BuildError.change_shifted]; rfl)

/-! ## The number at the end -/

/-- How many functions without a name the tokens start; `waiting` says that the token before was the
keyword of a function. -/
def unnamedFrom (waiting : Bool) : List Token → Nat
  | [] => 0
  | token :: rest =>
    (if waiting && (nameOf? token).isNone then 1 else 0) +
      unnamedFrom token.kind.startsFunction rest

/-- How many functions without a name the tokens start. -/
def unnamedIn (tokens : List Token) : Nat := unnamedFrom false tokens

/-- A step that keeps what holds of the expectation. -/
def Calm (p : Expectation → Prop) (step : Builder → Except BuildError Builder) : Prop :=
  ∀ b b', p b.expectation → step b = .ok b' → p b'.expectation

section

variable {p : Expectation → Prop}

theorem calm_ok {f : Builder → Builder} (h : ∀ b, (f b).expectation = b.expectation ∨ p (f b).expectation) :
    Calm p fun b => .ok (f b) := by
  intro b b' hb hok
  obtain rfl : f b = b' := Except.ok.inj hok
  rcases h b with heq | hcalm
  · rw [heq]
    exact hb
  · exact hcalm

theorem calm_error (e : BuildError) : Calm p fun _ => .error e := fun _ _ _ hok => nomatch hok

theorem calm_mapLevel (f : Level → Level) : Calm p fun b => .ok (b.mapLevel f) :=
  calm_ok fun b => Or.inl (b.expectation_mapLevel f)

theorem calm_tryLevel (f : Level → Except BuildError Level) : Calm p (·.tryLevel f) := by
  intro b b' hb hok
  obtain ⟨level, -, rfl⟩ := tryLevel_eq_ok hok
  rw [expectation_setLevel]
  exact hb

theorem Calm.bind {step next : Builder → Except BuildError Builder} (h : Calm p step)
    (hnext : Calm p next) : Calm p fun b => step b >>= next := by
  intro b b' hb hok
  obtain ⟨middle, hmiddle, hok⟩ := bind_eq_ok_iff.mp hok
  exact hnext _ _ (h _ _ hb hmiddle) hok

theorem calm_start {expectation : Expectation} (h : p expectation) : Calm p (·.start expectation) :=
  (calm_tryLevel _).bind (calm_ok fun _ => Or.inr h)

theorem calm_openParen (previous : Previous) (span : Span) :
    Calm p fun b => .ok (b.openParen previous span) := by
  refine calm_ok fun b => Or.inl ?_
  unfold openParen
  split
  · exact expectation_mapLevel b _
  · exact expectation_mapLevel b _

/-- After a parameter list the body of its function is waited for. -/
theorem calm_closeParen (hbody : ∀ head anonymous close, p (.body head anonymous close)) (span : Span) :
    Calm p (·.closeParen span) := by
  intro b b' hb hok
  cases closesParen hok with
  | group => exact calm_mapLevel _ _ _ hb rfl
  | call outer => exact (congrArg p (expectation_mapLevel { b with frames := outer } _)).mpr hb
  | header outer => exact (congrArg p (expectation_mapLevel { b with frames := outer } _)).mpr hb
  | params => exact hbody _ _ _

/-- After a block an `else` is waited for. -/
theorem calm_closeBrace (hotherwise : p .otherwise) (span : Span) : Calm p (·.closeBrace span) := by
  intro b b' hb hok
  cases closesBrace hok with
  | block => exact hotherwise
  | function outer => exact (congrArg p (expectation_mapLevel { b with frames := outer } _)).mpr hb

theorem calm_semicolon (span : Span) : Calm p (·.semicolon span) := by
  intro b b' hb hok
  obtain ⟨-, ⟨hok, -⟩ | ⟨hok, -⟩⟩ := semicolon_eq_ok hok
  · exact calm_tryLevel _ _ _ hb hok
  · exact calm_tryLevel _ _ _ hb hok

theorem calm_comma (span : Span) : Calm p (·.comma span) :=
  fun _ _ hb hok => calm_tryLevel _ _ _ hb (comma_eq_ok hok).2.2

theorem calm_equals (span : Span) : Calm p (·.equals span) := by
  intro b b' hb hok
  obtain ⟨name, place, target, -, -, rfl⟩ := equals_eq_ok hok
  exact calm_mapLevel _ _ _ hb rfl

theorem calm_otherwise (span : Span) : Calm p (·.otherwise span) := by
  intro b b' hb hok
  obtain ⟨level, node, items, -, -, rfl⟩ := otherwise_eq_ok hok
  simpa using hb

end

/-- After a function's keyword, and only then, its name is waited for. -/
theorem isFunction_handle {previous : Previous} {token : Token}
    (hb : b.expectation.isFunction = false) (hok : b.handle previous token = .ok b') :
    b'.expectation.isFunction = token.kind.startsFunction := by
  cases hkind : token.kind.startsFunction with
  | true =>
    rcases token with ⟨_ | _, span⟩
    case word text =>
      have hrole : Role.ofWord text = .function := by simpa [TokenKind.startsFunction] using hkind
      change b.word previous text span = .ok b' at hok
      rw [word, hrole] at hok
      obtain rfl := Except.ok.inj hok
      rfl
    all_goals cases hkind
  | false =>
    obtain ⟨act, hact, heq⟩ := exists_act previous token
    rw [heq] at hok
    suffices hcalm : Calm (fun expectation => expectation.isFunction = false) act from hcalm _ _ hb hok
    cases hact with
    | operand node => exact calm_mapLevel _
    | operator op base => exact calm_mapLevel _
    | openParen => exact calm_openParen previous token.span
    | closeParen => exact calm_closeParen (fun _ _ _ => rfl) token.span
    | closeBrace => exact calm_closeBrace (p := fun expectation => expectation.isFunction = false) rfl token.span
    | comma => exact calm_comma token.span
    | equals => exact calm_equals token.span
    | semicolon => exact calm_semicolon token.span
    | function keyword hfunction =>
      rw [hkind] at hfunction
      cases hfunction
    | openBrace => exact (calm_tryLevel _).bind (calm_ok fun _ => Or.inl rfl)
    | start expectation _ hfunction => exact calm_start hfunction
    | otherwise => exact calm_otherwise token.span
    | nothing => exact calm_ok fun _ => Or.inl rfl
    | fails e => exact calm_error e

theorem startsFunction_of_name {token : Token} {name : String} (h : nameOf? token = some name) :
    token.kind.startsFunction = false := by
  obtain ⟨hkind, hname⟩ := nameOf?_eq_some h
  rw [hkind]
  simp [TokenKind.startsFunction, Role.ofWord_of_isIdentifier hname]

/-- After the keyword of a function, and only then, its name is waited for. -/
theorem isFunction_feed {token : Token} (hok : b.feed token = .ok b') :
    b'.expectation.isFunction = token.kind.startsFunction := by
  cases fed hok with
  | handled _ h => exact isFunction_handle rfl h
  | header _ hkind =>
    rw [hkind]
    rfl
  | name _ hname => exact (startsFunction_of_name hname).symm
  | unnamed _ _ hkind =>
    rw [hkind]
    rfl
  | params _ hkind =>
    rw [hkind]
    rfl
  | value _ hkind =>
    rw [hkind]
    rfl
  | body _ hkind =>
    rw [hkind, push, expectation_mapLevel]
    rfl
  | target _ hname => exact (startsFunction_of_name hname).symm
  | assigned _ hkind =>
    rw [hkind, expectation_mapLevel]
    rfl
  | declared _ _ hdeclared h =>
    obtain ⟨-, rfl⟩ := declareBare_eq_ok hdeclared
    exact isFunction_handle (by rw [expectation_mapLevel]; rfl) h
  | branch _ _ h => exact isFunction_handle rfl h
  | ended _ _ _ h => exact isFunction_handle (by rw [expectation_setLevel]; rfl) h

/-- The number goes up, and by one, where a function's keyword is followed by no name. -/
theorem anonymous_feed {token : Token} (hok : b.feed token = .ok b') :
    b'.anonymous = b.anonymous +
      (if b.expectation.isFunction && (nameOf? token).isNone then 1 else 0) := by
  cases hfunction : b.expectation.isFunction with
  | false => exact anonymous_eq_of_map_numbered (feed_numbered hfunction b.anonymous token) hok
  | true =>
    cases fed hok with
    | name _ hname =>
      rw [hname]
      exact anonymous_setLevel _ _
    | unnamed _ hname =>
      rw [hname]
      rfl
    | _ hwaits =>
      rw [hwaits] at hfunction
      cases hfunction

/-- The builder has counted the keywords after which no name came. -/
theorem anonymous_foldlM {tokens : List Token} (hok : tokens.foldlM feed b = .ok b') :
    b'.anonymous = b.anonymous + unnamedFrom b.expectation.isFunction tokens := by
  induction tokens generalizing b with
  | nil =>
    obtain rfl : b = b' := Except.ok.inj hok
    rfl
  | cons token rest ih =>
    rw [List.foldlM_cons] at hok
    obtain ⟨next, hnext, hok⟩ := bind_eq_ok_iff.mp hok
    rw [ih hok, anonymous_feed hnext, isFunction_feed hnext, unnamedFrom, Nat.add_assoc]

end Builder

end SlotScript
