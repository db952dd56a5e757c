import RosRecipes.Condition.Basic
import RosRecipes.Proofs.Text.ByteOrder

/-!
# Derivations of conditions

A derivation shows how a list of tokens comes from the grammar

    expression := group ("or" group)*
    group      := test ("and" test)*
    test       := "(" expression ")" | atom | atom sign atom

There is a type for each rule, and one for each repetition.  A derivation has tokens, it gives an expression, and
it says on its own when a condition holds:

* an expression holds if one of its groups does (`Disjunction.Holds`), a group if all its tests do;
* the expression that a derivation gives holds exactly then (`Disjunction.expression_holds`);
* no list of tokens has two derivations (`Disjunction.tokens_inj`).
-/

namespace RosRecipes.Condition

mutual

/-- A derivation of an expression. -/
inductive Disjunction where
  | mk (first : Conjunction) (rest : Disjuncts)

/-- The further groups of an expression. -/
inductive Disjuncts where
  | nil
  | cons (group : Conjunction) (rest : Disjuncts)

/-- A derivation of a group. -/
inductive Conjunction where
  | mk (first : Test) (rest : Conjuncts)

/-- The further tests of a group. -/
inductive Conjuncts where
  | nil
  | cons (test : Test) (rest : Conjuncts)

/-- A derivation of a test. -/
inductive Test where
  | parenthesized (inner : Disjunction)
  | compare (left : Atom) (sign : Comparison) (right : Atom)
  | nonempty (atom : Atom)

end

/-! ### Tokens -/

mutual

def Disjunction.tokens : Disjunction → List Token
  | .mk first rest => first.tokens ++ rest.tokens

def Disjuncts.tokens : Disjuncts → List Token
  | .nil => []
  | .cons group rest => .or :: (group.tokens ++ rest.tokens)

def Conjunction.tokens : Conjunction → List Token
  | .mk first rest => first.tokens ++ rest.tokens

def Conjuncts.tokens : Conjuncts → List Token
  | .nil => []
  | .cons test rest => .and :: (test.tokens ++ rest.tokens)

def Test.tokens : Test → List Token
  | .parenthesized inner => .opening :: (inner.tokens ++ [.closing])
  | .compare left sign right => [.atom left, .comparison sign, .atom right]
  | .nonempty atom => [.atom atom]

end

/-! ### Expressions -/

mutual

def Disjunction.expression : Disjunction → Expression
  | .mk first rest => rest.after first.expression

/-- The expression of all groups, when `left` is that of the groups before: chains associate to the left. -/
def Disjuncts.after (left : Expression) : Disjuncts → Expression
  | .nil => left
  | .cons group rest => rest.after (.or left group.expression)

def Conjunction.expression : Conjunction → Expression
  | .mk first rest => rest.after first.expression

/-- The expression of all tests, when `left` is that of the tests before: chains associate to the left. -/
def Conjuncts.after (left : Expression) : Conjuncts → Expression
  | .nil => left
  | .cons test rest => rest.after (.and left test.expression)

def Test.expression : Test → Expression
  | .parenthesized inner => inner.expression
  | .compare left sign right => .compare left sign right
  | .nonempty atom => .nonempty atom

end

/-! ### Meanings -/

/-- The groups of an expression. -/
def Disjuncts.toList : Disjuncts → List Conjunction
  | .nil => []
  | .cons group rest => group :: rest.toList

def Disjunction.groups : Disjunction → List Conjunction
  | .mk first rest => first :: rest.toList

/-- The tests of a group. -/
def Conjuncts.toList : Conjuncts → List Test
  | .nil => []
  | .cons test rest => test :: rest.toList

def Conjunction.tests : Conjunction → List Test
  | .mk first rest => first :: rest.toList

/-- What a comparison says about two texts: they are compared byte by byte. -/
def Comparison.Meets (sign : Comparison) (left right : String) : Prop :=
  match sign with
  | .eq => Text.bytes left = Text.bytes right
  | .ne => Text.bytes left ≠ Text.bytes right
  | .lt => Text.bytes left < Text.bytes right
  | .le => Text.bytes left < Text.bytes right ∨ Text.bytes left = Text.bytes right
  | .gt => Text.bytes right < Text.bytes left
  | .ge => Text.bytes right < Text.bytes left ∨ Text.bytes right = Text.bytes left

/-- What an atom stands for: a variable that the context does not have is empty. -/
def Atom.meaning (ctx : Context) : Atom → String
  | .variable name =>
    match ctx.get? name with
    | some value => value
    | none => ""
  | .literal text => text

mutual

/-- Some group holds. -/
def Disjunction.Holds (ctx : Context) : Disjunction → Prop
  | .mk first rest => first.Holds ctx ∨ rest.Holds ctx

def Disjuncts.Holds (ctx : Context) : Disjuncts → Prop
  | .nil => False
  | .cons group rest => group.Holds ctx ∨ rest.Holds ctx

/-- All tests hold. -/
def Conjunction.Holds (ctx : Context) : Conjunction → Prop
  | .mk first rest => first.Holds ctx ∧ rest.Holds ctx

def Conjuncts.Holds (ctx : Context) : Conjuncts → Prop
  | .nil => True
  | .cons test rest => test.Holds ctx ∧ rest.Holds ctx

def Test.Holds (ctx : Context) : Test → Prop
  | .parenthesized inner => inner.Holds ctx
  | .compare left sign right => sign.Meets (left.meaning ctx) (right.meaning ctx)
  | .nonempty atom => atom.meaning ctx ≠ ""

end

private theorem Disjuncts.holds_iff {ctx : Context} (d : Disjuncts) : d.Holds ctx ↔ ∃ g ∈ d.toList, g.Holds ctx := by
  match d with
  | .nil => simp [Disjuncts.Holds, Disjuncts.toList]
  | .cons group rest => simp [Disjuncts.Holds, Disjuncts.toList, rest.holds_iff]

theorem Disjunction.holds_iff {ctx : Context} (d : Disjunction) : d.Holds ctx ↔ ∃ g ∈ d.groups, g.Holds ctx := by
  obtain ⟨first, rest⟩ := d
  simp [Disjunction.Holds, Disjunction.groups, rest.holds_iff]

private theorem Conjuncts.holds_iff {ctx : Context} (c : Conjuncts) : c.Holds ctx ↔ ∀ t ∈ c.toList, t.Holds ctx := by
  match c with
  | .nil => simp [Conjuncts.Holds, Conjuncts.toList]
  | .cons test rest => simp [Conjuncts.Holds, Conjuncts.toList, rest.holds_iff]

theorem Conjunction.holds_iff {ctx : Context} (c : Conjunction) : c.Holds ctx ↔ ∀ t ∈ c.tests, t.Holds ctx := by
  obtain ⟨first, rest⟩ := c
  simp [Conjunction.Holds, Conjunction.tests, rest.holds_iff]

theorem Atom.meaning_eq_value (ctx : Context) (a : Atom) : a.meaning ctx = a.value ctx := by
  match a with
  | .variable name =>
    simp only [Atom.meaning, Atom.value, Context.value]
    cases ctx.get? name <;> rfl
  | .literal text => rfl

/-- The order of texts is that of their bytes. -/
theorem Comparison.meets_iff {sign : Comparison} {left right : String} :
    sign.Meets left right ↔ sign.holds left right := by
  have hle : ∀ s t : String, s ≤ t ↔ s < t ∨ s = t := by
    intro s t
    constructor
    · intro h
      by_cases hst : s < t
      · exact .inl hst
      · exact .inr (String.le_antisymm h (String.not_lt.1 hst))
    · rintro (h | rfl)
      · exact String.not_lt.1 (String.lt_asymm h)
      · exact String.le_refl s
  cases sign <;> simp [Comparison.Meets, Comparison.holds, Text.bytes_lt_bytes, Text.bytes_inj, hle]

mutual

/-- The expression of a derivation holds exactly where the derivation does. -/
theorem Disjunction.expression_holds {ctx : Context} (d : Disjunction) : d.expression.holds ctx ↔ d.Holds ctx := by
  obtain ⟨first, rest⟩ := d
  rw [Disjunction.expression, Disjunction.Holds, rest.after_holds, first.expression_holds]

theorem Disjuncts.after_holds {ctx : Context} {left : Expression} (d : Disjuncts) :
    (d.after left).holds ctx ↔ left.holds ctx ∨ d.Holds ctx := by
  match d with
  | .nil => simp [Disjuncts.after, Disjuncts.Holds]
  | .cons group rest =>
    rw [Disjuncts.after, Disjuncts.Holds, rest.after_holds, Expression.holds, Bool.or_eq_true,
      group.expression_holds, or_assoc]

theorem Conjunction.expression_holds {ctx : Context} (c : Conjunction) : c.expression.holds ctx ↔ c.Holds ctx := by
  obtain ⟨first, rest⟩ := c
  rw [Conjunction.expression, Conjunction.Holds, rest.after_holds, first.expression_holds]

theorem Conjuncts.after_holds {ctx : Context} {left : Expression} (c : Conjuncts) :
    (c.after left).holds ctx ↔ left.holds ctx ∧ c.Holds ctx := by
  match c with
  | .nil => simp [Conjuncts.after, Conjuncts.Holds]
  | .cons test rest =>
    rw [Conjuncts.after, Conjuncts.Holds, rest.after_holds, Expression.holds, Bool.and_eq_true,
      test.expression_holds, and_assoc]

theorem Test.expression_holds {ctx : Context} (t : Test) : t.expression.holds ctx ↔ t.Holds ctx := by
  match t with
  | .parenthesized inner => rw [Test.expression, Test.Holds, inner.expression_holds]
  | .compare left sign right =>
    rw [Test.expression, Test.Holds, Expression.holds, Comparison.meets_iff, Atom.meaning_eq_value,
      Atom.meaning_eq_value]
  | .nonempty atom => simp [Test.expression, Test.Holds, Expression.holds, Atom.meaning_eq_value]

end

/-! ### Uniqueness -/

/-- Does a test end before these tokens? -/
def endsTest : List Token → Bool
  | .comparison _ :: _ => false
  | _ => true

/-- Does a group end before these tokens? -/
def endsGroup : List Token → Bool
  | .and :: _ => false
  | tokens => endsTest tokens

/-- Does an expression end before these tokens? -/
def endsExpression : List Token → Bool
  | .or :: _ => false
  | tokens => endsGroup tokens

theorem Disjuncts.endsGroup_append (d : Disjuncts) {rest : List Token} (h : endsExpression rest) :
    endsGroup (d.tokens ++ rest) := by
  match d with
  | .nil =>
    rw [Disjuncts.tokens, List.nil_append]
    unfold endsExpression at h
    split at h
    · cases h
    · exact h
  | .cons group more => rfl

theorem Conjuncts.endsTest_append (c : Conjuncts) {rest : List Token} (h : endsGroup rest) :
    endsTest (c.tokens ++ rest) := by
  match c with
  | .nil =>
    rw [Conjuncts.tokens, List.nil_append]
    unfold endsGroup at h
    split at h
    · cases h
    · exact h
  | .cons test more => rfl

mutual

/-- The tokens of a derivation tell where it ends and what it is. -/
theorem Disjunction.eq_of_append {d d' : Disjunction} {rest rest' : List Token}
    (h : d.tokens ++ rest = d'.tokens ++ rest') (hr : endsExpression rest) (hr' : endsExpression rest') :
    d = d' ∧ rest = rest' := by
  obtain ⟨first, more⟩ := d
  obtain ⟨first', more'⟩ := d'
  simp only [Disjunction.tokens, List.append_assoc] at h
  obtain ⟨rfl, hmore⟩ := Conjunction.eq_of_append h (more.endsGroup_append hr) (more'.endsGroup_append hr')
  obtain ⟨rfl, rfl⟩ := Disjuncts.eq_of_append hmore hr hr'
  exact ⟨rfl, rfl⟩
termination_by structural d

theorem Disjuncts.eq_of_append {d d' : Disjuncts} {rest rest' : List Token}
    (h : d.tokens ++ rest = d'.tokens ++ rest') (hr : endsExpression rest) (hr' : endsExpression rest') :
    d = d' ∧ rest = rest' := by
  match d, d' with
  | .nil, .nil => exact ⟨rfl, h⟩
  | .nil, .cons group' more' =>
    simp only [Disjuncts.tokens, List.nil_append, List.cons_append] at h
    rw [h] at hr
    cases hr
  | .cons group more, .nil =>
    simp only [Disjuncts.tokens, List.nil_append, List.cons_append] at h
    rw [← h] at hr'
    cases hr'
  | .cons group more, .cons group' more' =>
    simp only [Disjuncts.tokens, List.cons_append, List.append_assoc, List.cons.injEq, true_and] at h
    obtain ⟨rfl, hmore⟩ := Conjunction.eq_of_append h (more.endsGroup_append hr) (more'.endsGroup_append hr')
    obtain ⟨rfl, rfl⟩ := Disjuncts.eq_of_append hmore hr hr'
    exact ⟨rfl, rfl⟩
termination_by structural d

theorem Conjunction.eq_of_append {c c' : Conjunction} {rest rest' : List Token}
    (h : c.tokens ++ rest = c'.tokens ++ rest') (hr : endsGroup rest) (hr' : endsGroup rest') :
    c = c' ∧ rest = rest' := by
  obtain ⟨first, more⟩ := c
  obtain ⟨first', more'⟩ := c'
  simp only [Conjunction.tokens, List.append_assoc] at h
  obtain ⟨rfl, hmore⟩ := Test.eq_of_append h (more.endsTest_append hr) (more'.endsTest_append hr')
  obtain ⟨rfl, rfl⟩ := Conjuncts.eq_of_append hmore hr hr'
  exact ⟨rfl, rfl⟩
termination_by structural c

theorem Conjuncts.eq_of_append {c c' : Conjuncts} {rest rest' : List Token}
    (h : c.tokens ++ rest = c'.tokens ++ rest') (hr : endsGroup rest) (hr' : endsGroup rest') :
    c = c' ∧ rest = rest' := by
  match c, c' with
  | .nil, .nil => exact ⟨rfl, h⟩
  | .nil, .cons test' more' =>
    simp only [Conjuncts.tokens, List.nil_append, List.cons_append] at h
    rw [h] at hr
    cases hr
  | .cons test more, .nil =>
    simp only [Conjuncts.tokens, List.nil_append, List.cons_append] at h
    rw [← h] at hr'
    cases hr'
  | .cons test more, .cons test' more' =>
    simp only [Conjuncts.tokens, List.cons_append, List.append_assoc, List.cons.injEq, true_and] at h
    obtain ⟨rfl, hmore⟩ := Test.eq_of_append h (more.endsTest_append hr) (more'.endsTest_append hr')
    obtain ⟨rfl, rfl⟩ := Conjuncts.eq_of_append hmore hr hr'
    exact ⟨rfl, rfl⟩
termination_by structural c

theorem Test.eq_of_append {t t' : Test} {rest rest' : List Token}
    (h : t.tokens ++ rest = t'.tokens ++ rest') (hr : endsTest rest) (hr' : endsTest rest') :
    t = t' ∧ rest = rest' := by
  match t, t' with
  | .parenthesized inner, .parenthesized inner' =>
    simp only [Test.tokens, List.cons_append, List.append_assoc, List.nil_append, List.cons.injEq, true_and] at h
    obtain ⟨rfl, hmore⟩ := Disjunction.eq_of_append h rfl rfl
    exact ⟨rfl, List.tail_eq_of_cons_eq hmore⟩
  | .parenthesized _, .compare .. => simp [Test.tokens] at h
  | .parenthesized _, .nonempty _ => simp [Test.tokens] at h
  | .compare .., .parenthesized _ => simp [Test.tokens] at h
  | .nonempty _, .parenthesized _ => simp [Test.tokens] at h
  | .compare .., .compare .. =>
    simp only [Test.tokens, List.cons_append, List.nil_append, List.cons.injEq, Token.atom.injEq,
      Token.comparison.injEq] at h
    obtain ⟨rfl, rfl, rfl, rfl⟩ := h
    exact ⟨rfl, rfl⟩
  | .compare .., .nonempty _ =>
    simp only [Test.tokens, List.cons_append, List.nil_append, List.cons.injEq] at h
    rw [← h.2] at hr'
    cases hr'
  | .nonempty _, .compare .. =>
    simp only [Test.tokens, List.cons_append, List.nil_append, List.cons.injEq] at h
    rw [h.2] at hr
    cases hr
  | .nonempty _, .nonempty _ =>
    simp only [Test.tokens, List.cons_append, List.nil_append, List.cons.injEq, Token.atom.injEq] at h
    obtain ⟨rfl, rfl⟩ := h
    exact ⟨rfl, rfl⟩
termination_by structural t

end

/-- No list of tokens has two derivations. -/
theorem Disjunction.tokens_inj {d d' : Disjunction} (h : d.tokens = d'.tokens) : d = d' := by
  have happend : d.tokens ++ [] = d'.tokens ++ [] := by rw [h]
  exact (Disjunction.eq_of_append happend rfl rfl).1

end RosRecipes.Condition
