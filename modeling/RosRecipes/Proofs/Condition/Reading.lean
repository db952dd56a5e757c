import RosRecipes.Proofs.Condition.Grammar

/-!
# Conditions are read as the grammar derives them

Reading follows the grammar.  A derivation is read in full, whatever follows it (`Disjunction.read`), and what is
read is a derivation (`derivesAt`).  So a list of tokens is accepted exactly if the grammar derives it, and
the condition means what its derivation says (`accepted_iff_derived`).

The depth that bounds the reading is never reached: a derivation of `n` tokens needs at most `3 * n`.
-/

namespace RosRecipes.Condition

/-! ### Derivations are read -/

theorem Test.length_tokens_pos (t : Test) : 0 < t.tokens.length := by
  cases t <;> simp [Test.tokens]

theorem Conjunction.length_tokens_pos (c : Conjunction) : 0 < c.tokens.length := by
  obtain ⟨first, rest⟩ := c
  have := first.length_tokens_pos
  rw [Conjunction.tokens, List.length_append]
  omega

private theorem readOrTail_stop {fuel : Nat} {left : Expression} {rest : List Token} (h : endsExpression rest) :
    Expression.readOrTail (fuel + 1) left rest = .ok (left, rest) := by
  rw [Expression.readOrTail]
  rintro more rfl
  cases h

private theorem readAndTail_stop {fuel : Nat} {left : Expression} {rest : List Token} (h : endsGroup rest) :
    Expression.readAndTail (fuel + 1) left rest = .ok (left, rest) := by
  rw [Expression.readAndTail]
  rintro more rfl
  cases h

private theorem readTest_atom {fuel : Nat} {a : Atom} {rest : List Token} (h : endsTest rest) :
    Expression.readTest (fuel + 1) (.atom a :: rest) = .ok (.nonempty a, rest) := by
  rw [Expression.readTest]
  · rintro sign right more rfl
    cases h
  · rintro sign more rfl
    cases h

mutual

/-- A derivation is read in full. -/
theorem Disjunction.read (d : Disjunction) {fuel : Nat} {rest : List Token} (hf : 3 * d.tokens.length ≤ fuel)
    (hr : endsExpression rest) : Expression.readOr fuel (d.tokens ++ rest) = .ok (d.expression, rest) := by
  match d with
  | .mk first more =>
    have hpos := first.length_tokens_pos
    rw [Disjunction.tokens, List.length_append] at hf
    obtain ⟨fuel, rfl⟩ : ∃ k, fuel = k + 1 := ⟨fuel - 1, by omega⟩
    rw [Disjunction.tokens, List.append_assoc, Expression.readOr,
      first.read (by omega) (more.endsGroup_append hr)]
    exact more.read (by omega) hr
termination_by structural d

theorem Disjuncts.read (d : Disjuncts) {fuel : Nat} {left : Expression} {rest : List Token}
    (hf : 3 * d.tokens.length + 1 ≤ fuel) (hr : endsExpression rest) :
    Expression.readOrTail fuel left (d.tokens ++ rest) = .ok (d.after left, rest) := by
  obtain ⟨fuel, rfl⟩ : ∃ k, fuel = k + 1 := ⟨fuel - 1, by omega⟩
  match d with
  | .nil => exact readOrTail_stop hr
  | .cons group more =>
    rw [Disjuncts.tokens, List.length_cons, List.length_append] at hf
    rw [Disjuncts.tokens, List.cons_append, List.append_assoc, Expression.readOrTail,
      group.read (by omega) (more.endsGroup_append hr)]
    exact more.read (by omega) hr
termination_by structural d

theorem Conjunction.read (c : Conjunction) {fuel : Nat} {rest : List Token} (hf : 3 * c.tokens.length ≤ fuel + 1)
    (hr : endsGroup rest) : Expression.readAnd fuel (c.tokens ++ rest) = .ok (c.expression, rest) := by
  match c with
  | .mk first more =>
    have hpos := first.length_tokens_pos
    rw [Conjunction.tokens, List.length_append] at hf
    obtain ⟨fuel, rfl⟩ : ∃ k, fuel = k + 1 := ⟨fuel - 1, by omega⟩
    rw [Conjunction.tokens, List.append_assoc, Expression.readAnd,
      first.read (by omega) (more.endsTest_append hr)]
    exact more.read (by omega) hr
termination_by structural c

theorem Conjuncts.read (c : Conjuncts) {fuel : Nat} {left : Expression} {rest : List Token}
    (hf : 3 * c.tokens.length + 1 ≤ fuel) (hr : endsGroup rest) :
    Expression.readAndTail fuel left (c.tokens ++ rest) = .ok (c.after left, rest) := by
  obtain ⟨fuel, rfl⟩ : ∃ k, fuel = k + 1 := ⟨fuel - 1, by omega⟩
  match c with
  | .nil => exact readAndTail_stop hr
  | .cons test more =>
    rw [Conjuncts.tokens, List.length_cons, List.length_append] at hf
    rw [Conjuncts.tokens, List.cons_append, List.append_assoc, Expression.readAndTail,
      test.read (by omega) (more.endsTest_append hr)]
    exact more.read (by omega) hr
termination_by structural c

theorem Test.read (t : Test) {fuel : Nat} {rest : List Token} (hf : 3 * t.tokens.length ≤ fuel + 2)
    (hr : endsTest rest) : Expression.readTest fuel (t.tokens ++ rest) = .ok (t.expression, rest) := by
  have hpos := t.length_tokens_pos
  obtain ⟨fuel, rfl⟩ : ∃ k, fuel = k + 1 := ⟨fuel - 1, by omega⟩
  match t with
  | .parenthesized inner =>
    have hdepth : 3 * inner.tokens.length ≤ fuel := by
      simp only [Test.tokens, List.length_cons, List.length_append] at hf
      omega
    have hinner : Expression.readOr fuel (inner.tokens ++ .closing :: rest) =
        .ok (inner.expression, .closing :: rest) :=
      inner.read hdepth rfl
    simp only [Test.tokens, List.cons_append, List.append_assoc, List.nil_append, Expression.readTest, hinner,
      Test.expression]
  | .compare left sign right => rfl
  | .nonempty atom => exact readTest_atom hr
termination_by structural t

end

/-! ### What is read is a derivation -/

/-- Everything that some depth reads is a derivation of the tokens that it takes. -/
structure DerivesAt (fuel : Nat) : Prop where
  or : ∀ {tokens e rest}, Expression.readOr fuel tokens = .ok (e, rest) →
    ∃ d : Disjunction, d.tokens ++ rest = tokens ∧ d.expression = e
  orTail : ∀ {left tokens e rest}, Expression.readOrTail fuel left tokens = .ok (e, rest) →
    ∃ d : Disjuncts, d.tokens ++ rest = tokens ∧ d.after left = e
  and : ∀ {tokens e rest}, Expression.readAnd fuel tokens = .ok (e, rest) →
    ∃ c : Conjunction, c.tokens ++ rest = tokens ∧ c.expression = e
  andTail : ∀ {left tokens e rest}, Expression.readAndTail fuel left tokens = .ok (e, rest) →
    ∃ c : Conjuncts, c.tokens ++ rest = tokens ∧ c.after left = e
  test : ∀ {tokens e rest}, Expression.readTest fuel tokens = .ok (e, rest) →
    ∃ t : Test, t.tokens ++ rest = tokens ∧ t.expression = e

namespace DerivesAt

variable {fuel : Nat} (ih : DerivesAt fuel) {left e : Expression} {tokens rest : List Token}

include ih

theorem or_succ (h : Expression.readOr (fuel + 1) tokens = .ok (e, rest)) :
    ∃ d : Disjunction, d.tokens ++ rest = tokens ∧ d.expression = e := by
  unfold Expression.readOr at h
  split at h
  · cases h
  · next left mid hleft =>
    obtain ⟨first, rfl, rfl⟩ := ih.and hleft
    obtain ⟨more, rfl, rfl⟩ := ih.orTail h
    exact ⟨.mk first more, by simp [Disjunction.tokens], rfl⟩

theorem orTail_succ (h : Expression.readOrTail (fuel + 1) left tokens = .ok (e, rest)) :
    ∃ d : Disjuncts, d.tokens ++ rest = tokens ∧ d.after left = e := by
  unfold Expression.readOrTail at h
  split at h
  · next tail =>
    split at h
    · cases h
    · next right mid hright =>
      obtain ⟨group, rfl, rfl⟩ := ih.and hright
      obtain ⟨more, rfl, rfl⟩ := ih.orTail h
      exact ⟨.cons group more, by simp [Disjuncts.tokens], rfl⟩
  · cases h
    exact ⟨.nil, rfl, rfl⟩

theorem and_succ (h : Expression.readAnd (fuel + 1) tokens = .ok (e, rest)) :
    ∃ c : Conjunction, c.tokens ++ rest = tokens ∧ c.expression = e := by
  unfold Expression.readAnd at h
  split at h
  · cases h
  · next left mid hleft =>
    obtain ⟨first, rfl, rfl⟩ := ih.test hleft
    obtain ⟨more, rfl, rfl⟩ := ih.andTail h
    exact ⟨.mk first more, by simp [Conjunction.tokens], rfl⟩

theorem andTail_succ (h : Expression.readAndTail (fuel + 1) left tokens = .ok (e, rest)) :
    ∃ c : Conjuncts, c.tokens ++ rest = tokens ∧ c.after left = e := by
  unfold Expression.readAndTail at h
  split at h
  · next tail =>
    split at h
    · cases h
    · next right mid hright =>
      obtain ⟨test, rfl, rfl⟩ := ih.test hright
      obtain ⟨more, rfl, rfl⟩ := ih.andTail h
      exact ⟨.cons test more, by simp [Conjuncts.tokens], rfl⟩
  · cases h
    exact ⟨.nil, rfl, rfl⟩

theorem test_succ (h : Expression.readTest (fuel + 1) tokens = .ok (e, rest)) :
    ∃ t : Test, t.tokens ++ rest = tokens ∧ t.expression = e := by
  unfold Expression.readTest at h
  split at h
  · cases h
  · next tail =>
    -- Only a group that is closed is a test.
    split at h
    · cases h
    · next inner mid hinner =>
      cases h
      obtain ⟨d, rfl, rfl⟩ := ih.or hinner
      exact ⟨.parenthesized d, by simp [Test.tokens], rfl⟩
    · cases h
  · next left sign right tail =>
    cases h
    exact ⟨.compare left sign right, rfl, rfl⟩
  · cases h
  · next a tail _ _ =>
    cases h
    exact ⟨.nonempty a, rfl, rfl⟩
  · cases h

end DerivesAt

theorem derivesAt (fuel : Nat) : DerivesAt fuel := by
  induction fuel with
  | zero =>
    -- No reader gives anything without depth.
    refine ⟨?_, ?_, ?_, ?_, ?_⟩
    · intro tokens e rest h; simp [Expression.readOr] at h
    · intro left tokens e rest h; simp [Expression.readOrTail] at h
    · intro tokens e rest h; simp [Expression.readAnd] at h
    · intro left tokens e rest h; simp [Expression.readAndTail] at h
    · intro tokens e rest h; simp [Expression.readTest] at h
  | succ fuel ih => exact ⟨ih.or_succ, ih.orTail_succ, ih.and_succ, ih.andTail_succ, ih.test_succ⟩

/-- A list of tokens is read as an expression exactly if it has a derivation that gives this expression. -/
theorem ofTokens_eq_ok_iff {tokens : List Token} {e : Expression} :
    Expression.ofTokens tokens = .ok e ↔ ∃ d : Disjunction, d.tokens = tokens ∧ d.expression = e := by
  constructor
  · intro h
    unfold Expression.ofTokens at h
    split at h
    · cases h
    · next e' hread =>
      cases h
      obtain ⟨d, hd, rfl⟩ := (derivesAt _).or hread
      exact ⟨d, by rw [← hd, List.append_nil], rfl⟩
    · cases h
  · rintro ⟨d, rfl, rfl⟩
    have hread : Expression.readOr (readingDepth d.tokens.length) (d.tokens ++ []) = .ok (d.expression, []) :=
      d.read (by unfold readingDepth; omega) rfl
    rw [List.append_nil] at hread
    unfold Expression.ofTokens
    rw [hread]

/-- Tokens without a derivation are refused. -/
theorem ofTokens_eq_error_iff {tokens : List Token} :
    (∃ fault, Expression.ofTokens tokens = .error fault) ↔ ¬ ∃ d : Disjunction, d.tokens = tokens := by
  cases h : Expression.ofTokens tokens with
  | ok e =>
    obtain ⟨d, hd, -⟩ := ofTokens_eq_ok_iff.1 h
    exact iff_of_false (by rintro ⟨fault, hf⟩; cases hf) (not_not_intro ⟨d, hd⟩)
  | error fault =>
    refine iff_of_true ⟨fault, rfl⟩ ?_
    rintro ⟨d, hd⟩
    have hok := ofTokens_eq_ok_iff.2 ⟨d, hd, rfl⟩
    rw [h] at hok
    cases hok

private theorem parse_of_scan_ok {source : String} {tokens : List Token} (h : Token.scan source.toList = .ok tokens) :
    parse source = (Expression.ofTokens tokens).map fun e => ⟨source, e⟩ := by
  unfold parse
  rw [h]
  cases he : Expression.ofTokens tokens with
  | error fault => simp only [bind, Except.bind, he, Except.map]
  | ok e => simp only [bind, Except.bind, he, Except.map, pure, Except.pure]

private theorem parse_of_scan_error {source : String} {fault : Fault} (h : Token.scan source.toList = .error fault) :
    parse source = .error fault := by
  unfold parse
  rw [h]
  rfl

/-- A text is a condition exactly if its tokens have a derivation. -/
theorem parse_eq_ok_iff {source : String} {c : Condition} :
    parse source = .ok c ↔ c.source = source ∧
      ∃ d : Disjunction, Token.scan source.toList = .ok d.tokens ∧ d.expression = c.expression := by
  obtain ⟨text, e⟩ := c
  cases hscan : Token.scan source.toList with
  | error fault => simp [parse_of_scan_error hscan]
  | ok tokens =>
    rw [parse_of_scan_ok hscan]
    cases hof : Expression.ofTokens tokens with
    | error fault =>
      refine iff_of_false (by simp [Except.map]) ?_
      rintro ⟨-, d, hd, -⟩
      cases hd
      exact ofTokens_eq_error_iff.1 ⟨fault, hof⟩ ⟨d, rfl⟩
    | ok e' =>
      obtain ⟨d, rfl, rfl⟩ := ofTokens_eq_ok_iff.1 hof
      constructor
      · intro h
        cases h
        exact ⟨rfl, d, rfl, rfl⟩
      · rintro ⟨rfl, d', hd', rfl⟩
        rw [Disjunction.tokens_inj (Except.ok.inj hd')]
        rfl

theorem parse_eq_error_iff {source : String} :
    (∃ fault, parse source = .error fault) ↔ ¬ ∃ d : Disjunction, Token.scan source.toList = .ok d.tokens := by
  cases h : parse source with
  | ok c =>
    obtain ⟨-, d, hd, -⟩ := parse_eq_ok_iff.1 h
    exact iff_of_false (by rintro ⟨fault, hf⟩; cases hf) (not_not_intro ⟨d, hd⟩)
  | error fault =>
    refine iff_of_true ⟨fault, rfl⟩ ?_
    rintro ⟨d, hd⟩
    have hok : parse source = .ok ⟨source, d.expression⟩ := parse_eq_ok_iff.2 ⟨rfl, d, hd, rfl⟩
    rw [h] at hok
    cases hok

/-- Conditions are read as the grammar derives them, and mean what their derivations say. -/
theorem accepted_iff_derived :
    (∀ tokens e, Expression.ofTokens tokens = .ok e ↔ ∃ d : Disjunction, d.tokens = tokens ∧ d.expression = e) ∧
    (∀ d d' : Disjunction, d.tokens = d'.tokens ↔ d = d') ∧
    (∀ (d : Disjunction) ctx, d.expression.holds ctx ↔ ∃ g ∈ d.groups, ∀ t ∈ g.tests, t.Holds ctx) ∧
    (∀ source c, parse source = .ok c ↔ c.source = source ∧
      ∃ d : Disjunction, Token.scan source.toList = .ok d.tokens ∧ d.expression = c.expression ∧
        ∀ ctx, c.holds ctx ↔ ∃ g ∈ d.groups, ∀ t ∈ g.tests, t.Holds ctx) ∧
    (∀ source, (∃ fault, parse source = .error fault) ↔
      ¬ ∃ d : Disjunction, Token.scan source.toList = .ok d.tokens) := by
  have hmeaning : ∀ (d : Disjunction) ctx, d.expression.holds ctx ↔ ∃ g ∈ d.groups, ∀ t ∈ g.tests, t.Holds ctx := by
    intro d ctx
    simp only [d.expression_holds, d.holds_iff, Conjunction.holds_iff]
  refine ⟨fun _ _ => ofTokens_eq_ok_iff, ?_, hmeaning, ?_, fun _ => parse_eq_error_iff⟩
  · intro d d'
    exact ⟨Disjunction.tokens_inj, congrArg _⟩
  · intro source c
    rw [parse_eq_ok_iff]
    constructor
    · rintro ⟨hs, d, hd, he⟩
      refine ⟨hs, d, hd, he, fun ctx => ?_⟩
      rw [← hmeaning, he, Condition.holds]
    · rintro ⟨hs, d, hd, he, -⟩
      exact ⟨hs, d, hd, he⟩

end RosRecipes.Condition
