import Mathlib.Data.List.Basic

/-!
# Decision lists

A decision list answers a question by its first rule that applies. When the rules are replaced
one by one by others with the same verdicts, the answers stay the same exactly when every rule
that applies differently is made up for by the rules after it.
-/

namespace DecisionList

variable {R X V : Type} (applies applies' : R → X → Bool) (verdict : R → V) (default : V)

/-- The verdict of the first rule that applies to `x`, or the default. -/
def answer : List R → X → V
  | [], _ => default
  | r :: rules, x => if applies r x then verdict r else answer rules x

variable {applies applies' verdict default}

theorem answer_cons_of_applies
    {r : R} {x : X} (h : applies r x = true) (rules : List R) :
  answer applies verdict default (r :: rules) x = verdict r
  := if_pos h

theorem answer_cons_of_not_applies
    {r : R} {x : X} (h : applies r x = false) (rules : List R) :
  answer applies verdict default (r :: rules) x = answer applies verdict default rules x
  := by
  rw [answer, if_neg (by simp [h])]

/-- Rules that do not apply are passed by. -/
theorem answer_append
    {pre : List R} {x : X} (h : ∀ q ∈ pre, applies q x = false) (rules : List R) :
  answer applies verdict default (pre ++ rules) x = answer applies verdict default rules x
  := by
  induction pre with
  | nil => rfl
  | cons q pre ih =>
      rw [List.cons_append, answer_cons_of_not_applies (h q List.mem_cons_self)]
      apply ih
      intro r hr
      apply h r (List.mem_cons_of_mem _ hr)

/-- Rules that come first make no difference exactly when the first of them that applies, if there
is any, decides as the others do. -/
theorem answer_append_eq_iff
    (pre rules : List R) (x : X) :
  answer applies verdict default (pre ++ rules) x = answer applies verdict default rules x ↔
    ∀ before r after, pre = before ++ r :: after → (∀ q ∈ before, applies q x = false) →
      applies r x = true → verdict r = answer applies verdict default rules x
  := by
  constructor
  · rintro h before r after rfl hbefore hr
    rw [List.append_assoc, answer_append hbefore, List.cons_append, answer_cons_of_applies hr] at h
    exact h
  · intro h
    induction pre with
    | nil => rfl
    | cons r pre ih =>
        rw [List.cons_append]
        cases hr : applies r x with
        | true =>
            rw [answer_cons_of_applies hr]
            exact h [] r pre rfl (List.forall_mem_nil _) hr
        | false =>
            rw [answer_cons_of_not_applies hr]
            apply ih
            rintro before q after rfl hbefore
            exact h (r :: before) q after rfl (List.forall_mem_cons.mpr ⟨hr, hbefore⟩)

variable (applies applies' verdict default)

/-- At `x` the rule, which is followed by `post`, applies in both ways or in neither, or else
the rules after it give its verdict in the way in which it does not apply. -/
def MadeUpFor (r : R) (post : List R) (x : X) : Prop :=
  (applies r x = true → applies' r x = false →
    answer applies' verdict default post x = verdict r) ∧
  (applies r x = false → applies' r x = true →
    answer applies verdict default post x = verdict r)

/-- In neither way does one of the rules apply to `x`. -/
def Silent (rules : List R) (x : X) : Prop :=
  ∀ q ∈ rules, applies q x = false ∧ applies' q x = false

variable {applies applies' verdict default}

/-- A rule that applies in the same way needs not be made up for. -/
theorem madeUpFor_of_eq
    {r : R} {x : X} (h : applies' r x = applies r x) (post : List R) :
  MadeUpFor applies applies' verdict default r post x
  := by
  constructor
  · intro h₁ h₂
    rw [h, h₁] at h₂
    cases h₂
  · intro h₁ h₂
    rw [h, h₁] at h₂
    cases h₂

/-- The two ways of applying the rules give the same answer exactly when the first rule that
applies in one of them, if there is any, is made up for. -/
theorem answer_eq_iff
    (rules : List R) (x : X) :
  answer applies' verdict default rules x = answer applies verdict default rules x ↔
    ∀ pre r post, rules = pre ++ r :: post → Silent applies applies' pre x →
      MadeUpFor applies applies' verdict default r post x
  := by
  constructor
  · rintro h pre r post rfl hpre
    rw [answer_append fun q hq => (hpre q hq).1, answer_append fun q hq => (hpre q hq).2] at h
    constructor
    · intro h₁ h₂
      rw [answer_cons_of_applies h₁, answer_cons_of_not_applies h₂] at h
      apply h
    · intro h₁ h₂
      rw [answer_cons_of_not_applies h₁, answer_cons_of_applies h₂] at h
      apply h.symm
  · intro h
    induction rules with
    | nil => rfl
    | cons r rules ih =>
        have hnone : Silent applies applies' [] x := by
          intro q hq
          cases hq
        obtain ⟨hfirst, hsecond⟩ := h [] r rules rfl hnone
        cases h₁ : applies r x with
        | true =>
            rw [answer_cons_of_applies h₁]
            cases h₂ : applies' r x with
            | true => rw [answer_cons_of_applies h₂]
            | false => rw [answer_cons_of_not_applies h₂, hfirst h₁ h₂]
        | false =>
            rw [answer_cons_of_not_applies h₁]
            cases h₂ : applies' r x with
            | true => rw [answer_cons_of_applies h₂, hsecond h₁ h₂]
            | false =>
                rw [answer_cons_of_not_applies h₂]
                apply ih
                rintro pre q post rfl hpre
                apply h (r :: pre) q post rfl
                intro q' hq'
                rcases List.mem_cons.mp hq' with rfl | hq'
                · apply And.intro h₁ h₂
                · apply hpre q' hq'

end DecisionList
