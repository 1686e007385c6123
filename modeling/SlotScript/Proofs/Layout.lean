import SlotScript.Pipeline
import SlotScript.Proofs.Scope.Bare
import SlotScript.Proofs.Token.Layout

/-!
# Layout does not change the program

**Theorem (`compile_layout`).** If a source can be scanned, then with any other spaces and comments
between its tokens it has the same kinds of tokens, and it compiles to the same program up to spans, or
fails for the same reason.

No stage after the scanner asks where a token stands: the builder by `Program.ofTokens_bare`, and the
resolver by `Program.resolve_skeleton`.
-/

namespace SlotScript

/-- The two sources compile to the same program up to spans, or they fail in the same stage for the
same reason. -/
inductive SameOutcome (source source' : String) : Prop
  | program {program program' : Program} (h : compile source = .ok program)
      (h' : compile source' = .ok program') (same : program.bare = program'.bare)
  | build {e e' : BuildError} (h : compile source = .error e.toDiagnostic)
      (h' : compile source' = .error e'.toDiagnostic) (same : e.bare = e'.bare)
  | scope {e e' : ScopeError} (h : compile source = .error e.toDiagnostic)
      (h' : compile source' = .error e'.toDiagnostic) (same : e.bare = e'.bare)

section

variable {source source' : String} {tokens tokens' : List Token}

theorem compile_of_build_error (hscan : Token.scan source = .ok tokens) {e : BuildError}
    (h : Program.ofTokens tokens = .error e) : compile source = .error e.toDiagnostic := by
  simp only [compile, tokensOf, hscan, diagnose, ok_bind, h]
  rfl

theorem compile_of_build (hscan : Token.scan source = .ok tokens) {program : Program}
    (h : Program.ofTokens tokens = .ok program) :
    compile source = diagnose ScopeError.toDiagnostic program.resolve := by
  simp only [compile, tokensOf, hscan, diagnose, ok_bind, h]

/-- Programs that are the same up to spans are resolved alike. -/
theorem sameOutcome_of_bare {built built' : Program} (hbare : built.bare = built'.bare)
    (h : compile source = diagnose ScopeError.toDiagnostic built.resolve)
    (h' : compile source' = diagnose ScopeError.toDiagnostic built'.resolve) :
    SameOutcome source source' := by
  have hskeleton : bared Program.bare built.resolve = bared Program.bare built'.resolve := by
    rw [← Program.resolve_skeleton, ← Program.resolve_skeleton, Program.skeleton, hbare,
      Program.skeleton]
  cases hresolve : built.resolve with
  | ok program =>
    cases hresolve' : built'.resolve with
    | ok program' =>
      rw [hresolve, hresolve'] at hskeleton
      rw [hresolve] at h
      rw [hresolve'] at h'
      exact .program h h' (Except.ok.inj hskeleton)
    | error e' =>
      rw [hresolve, hresolve'] at hskeleton
      cases hskeleton
  | error e =>
    cases hresolve' : built'.resolve with
    | ok program' =>
      rw [hresolve, hresolve'] at hskeleton
      cases hskeleton
    | error e' =>
      rw [hresolve, hresolve'] at hskeleton
      rw [hresolve] at h
      rw [hresolve'] at h'
      exact .scope h h' (Except.error.inj hskeleton)

/-- Sources with the same kinds of tokens have the same outcome. -/
theorem sameOutcome_of_kinds (hscan : Token.scan source = .ok tokens)
    (hscan' : Token.scan source' = .ok tokens')
    (hkinds : tokens'.map (·.kind) = tokens.map (·.kind)) : SameOutcome source source' := by
  have hbare : tokens'.map Token.bare = tokens.map Token.bare := by
    have hmap : ∀ tokens : List Token,
        tokens.map Token.bare = (tokens.map (·.kind)).map fun kind => ⟨kind, .nowhere⟩ := by
      intro tokens
      rw [List.map_map]
      rfl
    rw [hmap, hmap, hkinds]
  have hbuilt : bareWith Program.bare (Program.ofTokens tokens) =
      bareWith Program.bare (Program.ofTokens tokens') := by
    rw [← Program.ofTokens_bare, ← Program.ofTokens_bare, hbare]
  cases hbuild : Program.ofTokens tokens with
  | ok built =>
    cases hbuild' : Program.ofTokens tokens' with
    | ok built' =>
      rw [hbuild, hbuild'] at hbuilt
      exact sameOutcome_of_bare (Except.ok.inj hbuilt) (compile_of_build hscan hbuild)
        (compile_of_build hscan' hbuild')
    | error e' =>
      rw [hbuild, hbuild'] at hbuilt
      cases hbuilt
  | error e =>
    cases hbuild' : Program.ofTokens tokens' with
    | ok built' =>
      rw [hbuild, hbuild'] at hbuilt
      cases hbuilt
    | error e' =>
      rw [hbuild, hbuild'] at hbuilt
      exact .build (compile_of_build_error hscan hbuild) (compile_of_build_error hscan' hbuild')
        (Except.error.inj hbuilt)

end

/-- **Layout does not change the program.** -/
theorem compile_layout {source : String} {tokens : List Token} (h : Token.scan source = .ok tokens)
    {chars : List Char} (hlayout : Layout (Token.texts source tokens) chars) :
    (∃ tokens', Token.scan (String.ofList chars) = .ok tokens' ∧
      tokens'.map (·.kind) = tokens.map (·.kind)) ∧
    SameOutcome source (String.ofList chars) := by
  obtain ⟨tokens', hscan', hkinds⟩ := Token.scan_layout h hlayout
  exact ⟨⟨tokens', hscan', hkinds⟩, sameOutcome_of_kinds h hscan' hkinds⟩

/-- `x=1.5//y`, and the same with a comment in front, spaces, and another comment at the end. -/
theorem compile_layout_comments : ∃ tokens, Token.scan "x=1.5//y" = .ok tokens ∧
    Layout (Token.texts "x=1.5//y" tokens) "/*/x*/x =\t1.5\n//".toList ∧
    (∃ tokens', Token.scan "/*/x*/x =\t1.5\n//" = .ok tokens' ∧
      tokens'.map (·.kind) = tokens.map (·.kind)) ∧
    SameOutcome "x=1.5//y" "/*/x*/x =\t1.5\n//" := by
  have htexts : (Token.scan "x=1.5//y").toOption.map (Token.texts "x=1.5//y") =
      some ["x".toList, "=".toList, "1.5".toList] := by
    decide +kernel
  obtain ⟨tokens, hscan⟩ := exists_ok_of_isOk (by decide +kernel : (Token.scan "x=1.5//y").isOk = true)
  rw [hscan] at htexts
  have htexts : Token.texts "x=1.5//y" tokens = ["x".toList, "=".toList, "1.5".toList] :=
    Option.some.inj htexts
  have hlayout : Layout (Token.texts "x=1.5//y" tokens) "/*/x*/x =\t1.5\n//".toList := by
    rw [htexts]
    have hlast : Layout [] ['\n', '/', '/'] :=
      .space rfl (@Layout.lastComment [] (by simp))
    have hnumber : Layout ["1.5".toList] ('\t' :: ("1.5".toList ++ ['\n', '/', '/'])) :=
      .space rfl (.token (by simp [Lexeme.Apart, Lexeme.isSpace]) hlast)
    have hequals : Layout ["=".toList, "1.5".toList] (' ' :: ("=".toList ++ _)) :=
      .space rfl (.token (by simp [Lexeme.Apart, Lexeme.isSpace]) hnumber)
    have hname : Layout ["x".toList, "=".toList, "1.5".toList] ("x".toList ++ _) :=
      .token (by simp [Lexeme.Apart, Lexeme.isSpace]) hequals
    exact @Layout.blockComment _ _ ['/', 'x'] (by decide) hname
  have hsame := compile_layout hscan hlayout
  rw [String.ofList_toList] at hsame
  exact ⟨tokens, hscan, hlayout, hsame⟩

end SlotScript
