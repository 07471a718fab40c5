import RsyncRs.Program.Basic

/-!
# Runs of programs

An environment `act w c r w'` says that in the world `w` the command `c` may be answered by
`r`, which leaves the world `w'`. Programs take steps in an environment, and what holds of
every run of a program is established by `Safe`, by recursion on the program: a loop is safe
when an invariant of its states is.
-/

namespace Prog

variable {C : Type} {R : C → Type} {W : Type} {α β S A : Type}

/-! ### Steps -/

/-- A program takes one step in the environment `act`. -/
inductive Step (act : W → (c : C) → R c → W → Prop) :
    Prog R α × W → Prog R α × W → Prop where
  /-- A command is answered. -/
  | call {c : C} {k : R c → Prog R α} {r : R c} {w w' : W} (h : act w c r w') :
      Step act (.call c k, w) (k r, w')
  /-- A loop starts another round. -/
  | loop {S A : Type} {body : S → Prog R (S ⊕ A)} {s : S} {k : A → Prog R α} {w : W} :
      Step act (.loop body s k, w) (unroll body s k, w)

variable (act : W → (c : C) → R c → W → Prop)

/-- The first configuration may come to the second. -/
def Reaches : Prog R α × W → Prog R α × W → Prop :=
  Relation.ReflTransGen (Step act)

/-- The program, started in `w`, may return `a` in `w'`. -/
def Ends (p : Prog R α) (w : W) (a : α) (w' : W) : Prop :=
  Reaches act (p, w) (.ret a, w')

variable {act}

/-- A program that is followed by another one takes its own steps first. -/
theorem Step.bind
    {p p' : Prog R α} {w w' : W} (h : Step act (p, w) (p', w')) (f : α → Prog R β) :
  Step act (p >>= f, w) (p' >>= f, w')
  := by
  cases h with
  | call h => apply Step.call h
  | @loop _ _ body s k =>
      have e : unroll body s k >>= f = unroll body s fun a => k a >>= f := by
        rw [unroll, bind_assoc, unroll]
        congr
        funext x
        cases x <;> rfl
      rw [e]
      apply Step.loop

/-- A run of the first program is a run of the first program followed by another one. -/
theorem Reaches.bind
    {p p' : Prog R α} {w w' : W} (h : Reaches act (p, w) (p', w')) (f : α → Prog R β) :
  Reaches act (p >>= f, w) (p' >>= f, w')
  := by
  apply Relation.ReflTransGen.lift (fun x : Prog R α × W => (x.1 >>= f, x.2)) ?_ _ _ h
  intro x y hxy
  apply hxy.bind

/-! ### Rules for complete runs -/

theorem Ends.ret
    (a : α) (w : W) :
  Ends act (.ret a) w a w
  := Relation.ReflTransGen.refl

theorem Ends.call
    {c : C} {k : R c → Prog R α} {r : R c} {w w₁ w₂ : W} {a : α}
    (h : act w c r w₁) (hk : Ends act (k r) w₁ a w₂) :
  Ends act (.call c k) w a w₂
  := Relation.ReflTransGen.head (Step.call h) hk

theorem Ends.bind
    {p : Prog R α} {f : α → Prog R β} {w w₁ w₂ : W} {a : α} {b : β}
    (hp : Ends act p w a w₁) (hf : Ends act (f a) w₁ b w₂) :
  Ends act (p >>= f) w b w₂
  := Relation.ReflTransGen.trans (Reaches.bind hp f) hf

theorem Ends.perform
    {c : C} {r : R c} {w w' : W} (h : act w c r w') :
  Ends act (perform c) w r w'
  := Ends.call h (Ends.ret r w')

/-- One round of a loop. -/
def Round (act : W → (c : C) → R c → W → Prop) (body : S → Prog R (S ⊕ A))
    (x y : S × W) : Prop :=
  Ends act (body x.1) x.2 (.inl y.1) y.2

/-- The loop `body`, started in `x`, comes to the start of a round in `y`. -/
def Rounds (act : W → (c : C) → R c → W → Prop) (body : S → Prog R (S ⊕ A)) :
    S × W → S × W → Prop :=
  Relation.ReflTransGen (Round act body)

theorem Ends.loop_again
    {body : S → Prog R (S ⊕ A)} {s s' : S} {k : A → Prog R α} {w w₁ w₂ : W} {a : α}
    (h : Ends act (body s) w (.inl s') w₁) (hk : Ends act (.loop body s' k) w₁ a w₂) :
  Ends act (.loop body s k) w a w₂
  := Relation.ReflTransGen.head Step.loop (Ends.bind h hk)

theorem Ends.loop_done
    {body : S → Prog R (S ⊕ A)} {s : S} {k : A → Prog R α} {w w₁ w₂ : W} {b : A} {a : α}
    (h : Ends act (body s) w (.inr b) w₁) (hk : Ends act (k b) w₁ a w₂) :
  Ends act (.loop body s k) w a w₂
  := Relation.ReflTransGen.head Step.loop (Ends.bind h hk)

/-- The environment answers every command in one way. -/
def Deterministic (act : W → (c : C) → R c → W → Prop) : Prop :=
  ∀ ⦃w c r r' w₁ w₂⦄, act w c r w₁ → act w c r' w₂ → r = r' ∧ w₁ = w₂

/-- In an environment that answers in one way, a run that has come to a configuration goes
on from there to the same end. -/
theorem Ends.after
    (hact : Deterministic act) {p q : Prog R α} {w w₁ w₂ : W} {a : α}
    (h : Reaches act (p, w) (q, w₁)) (he : Ends act p w a w₂) :
  Ends act q w₁ a w₂
  := by
  generalize hx : (p, w) = x at h
  induction h using Relation.ReflTransGen.head_induction_on generalizing p w with
  | refl =>
      cases hx
      apply he
  | head h _ ih =>
      subst hx
      rcases Relation.ReflTransGen.cases_head he with hp | ⟨z, hz, he⟩
      · cases hp
        cases h
      · cases h with
        | call h =>
            cases hz with
            | call h' =>
                obtain ⟨rfl, rfl⟩ := hact h h'
                apply ih he rfl
        | loop =>
            cases hz
            apply ih he rfl

/-- A program that has returned ends with what it returned. -/
theorem Ends.of_ret
    {a b : α} {w w' : W} (h : Ends act (.ret a) w b w') :
  b = a ∧ w' = w
  := by
  rcases Relation.ReflTransGen.cases_head h with h | ⟨x, hx, -⟩
  · cases h
    apply And.intro rfl rfl
  · cases hx

/-- In an environment that answers in one way, a program returns in one way. -/
theorem Ends.unique
    (hact : Deterministic act) {p : Prog R α} {w w₁ w₂ : W} {a b : α}
    (ha : Ends act p w a w₁) (hb : Ends act p w b w₂) :
  b = a ∧ w₂ = w₁
  := by
  apply Ends.of_ret
  apply Ends.after hact ha hb

/-! ### Safety -/

/-- Every command issued by the program from `w` satisfies `φ`, and when it returns the
result satisfies `Q`. -/
def Safe (act : W → (c : C) → R c → W → Prop) (φ : W → C → Prop) :
    {α : Type} → Prog R α → (α → W → Prop) → W → Prop
  | _, .ret a, Q, w => Q a w
  | _, .call c k, Q, w => φ w c ∧ ∀ r w', act w c r w' → Safe act φ (k r) Q w'
  | _, .loop (S := S) body s k, Q, w =>
      ∃ J : S → W → Prop, J s w ∧ ∀ s w, J s w → Safe act φ (body s)
        (fun x w => match x with
          | .inl s => J s w
          | .inr a => Safe act φ (k a) Q w) w

variable {φ : W → C → Prop}

/-- A safe program stays safe when less is asked of its result. -/
theorem Safe.mono
    {p : Prog R α} {P Q : α → W → Prop} {w : W} (h : Safe act φ p P w)
    (hQ : ∀ a w, P a w → Q a w) :
  Safe act φ p Q w
  := by
  induction p generalizing w with
  | ret a =>
      apply hQ _ _ h
  | call c k ih =>
      apply And.intro h.1
      intro r w' hr
      apply ih r (h.2 r w' hr) hQ
  | loop body s k ihb ihk =>
      obtain ⟨J, hs, hJ⟩ := h
      use J, hs
      intro s w hs
      apply ihb s (hJ s w hs)
      intro x w hx
      cases x with
      | inl s => apply hx
      | inr a => apply ihk a hx hQ

/-- A program followed by another one is safe when the first one is and the second one is
safe on its results. -/
theorem Safe.bind
    {p : Prog R α} {f : α → Prog R β} {Q : β → W → Prop} {w : W}
    (h : Safe act φ p (fun a w => Safe act φ (f a) Q w) w) :
  Safe act φ (p >>= f) Q w
  := by
  induction p generalizing w with
  | ret a =>
      apply h
  | call c k ih =>
      apply And.intro h.1
      intro r w' hr
      apply ih r (h.2 r w' hr)
  | loop body s k _ ihk =>
      obtain ⟨J, hs, hJ⟩ := h
      use J, hs
      intro s w hs
      apply (hJ s w hs).mono
      intro x w hx
      cases x with
      | inl s => apply hx
      | inr a => apply ihk a hx

/-- A loop is safe when an invariant `J` of its states is kept by its body. -/
theorem Safe.iterate
    {body : S → Prog R (S ⊕ A)} {s : S} {Q : A → W → Prop} {w : W} (J : S → W → Prop)
    (hs : J s w)
    (hJ : ∀ s w, J s w → Safe act φ (body s) (fun x w => Sum.elim (J · w) (Q · w) x) w) :
  Safe act φ (Prog.iterate body s) Q w
  := by
  use J, hs
  intro s w hs
  apply (hJ s w hs).mono
  intro x w hx
  cases x with
  | inl s => apply hx
  | inr a => apply hx

/-- Safety is kept by a step. -/
theorem Safe.step
    {p p' : Prog R α} {Q : α → W → Prop} {w w' : W} (h : Safe act φ p Q w)
    (hp : Step act (p, w) (p', w')) :
  Safe act φ p' Q w'
  := by
  cases hp with
  | call hr => apply h.2 _ _ hr
  | @loop _ _ body s k =>
      obtain ⟨J, hs, hJ⟩ := h
      apply Safe.bind
      apply (hJ s w hs).mono
      intro x w hx
      cases x with
      | inl s => apply Exists.intro J ⟨hx, hJ⟩
      | inr a => apply hx

/-- Safety is kept by a run. -/
theorem Safe.reaches
    {p p' : Prog R α} {Q : α → W → Prop} {w w' : W} (h : Safe act φ p Q w)
    (hp : Reaches act (p, w) (p', w')) :
  Safe act φ p' Q w'
  := by
  generalize hy : (p', w') = y at hp
  induction hp generalizing p' w' with
  | refl =>
      cases hy
      apply h
  | @tail z y _ hz ih =>
      subst hy
      obtain ⟨q, u⟩ := z
      apply (ih rfl).step hz

/-- What a safe program returns satisfies its postcondition. -/
theorem Safe.ends
    {p : Prog R α} {Q : α → W → Prop} {w w' : W} {a : α} (h : Safe act φ p Q w)
    (hp : Ends act p w a w') :
  Q a w'
  := h.reaches hp

/-- A postcondition that holds of everything a program may return is established by
`Safe`. -/
theorem safe_of_ends
    {p : Prog R α} {Q : α → W → Prop} {w : W} (h : ∀ a w', Ends act p w a w' → Q a w') :
  Safe act (fun _ _ => True) p Q w
  := by
  induction p generalizing w with
  | ret a => apply h a w (Ends.ret a w)
  | call c k ih =>
      apply And.intro trivial
      intro r w' hr
      apply ih r
      intro a w'' ha
      apply h a w'' (Ends.call hr ha)
  | loop body s k ihb ihk =>
      -- the invariant: whatever the loop may return from here satisfies the postcondition
      use fun s w => ∀ a w', Ends act (.loop body s k) w a w' → Q a w', h
      intro s w hs
      apply ihb s
      intro x w₁ hx
      cases x with
      | inl s' =>
          intro a w' ha
          apply hs a w' (Ends.loop_again hx ha)
      | inr b =>
          apply ihk b
          intro a w' ha
          apply hs a w' (Ends.loop_done hx ha)

/-- A complete run of two programs is a complete run of the first and one of the second. -/
theorem Ends.bind_inv
    {p : Prog R α} {f : α → Prog R β} {w w₂ : W} {b : β} (h : Ends act (p >>= f) w b w₂) :
  ∃ a w₁, Ends act p w a w₁ ∧ Ends act (f a) w₁ b w₂
  := by
  have hsafe : Safe act (fun _ _ => True) (p >>= f)
      (fun b w₂ => ∃ a w₁, Ends act p w a w₁ ∧ Ends act (f a) w₁ b w₂) w := by
    apply Safe.bind
    apply safe_of_ends
    intro a w₁ ha
    apply safe_of_ends
    intro b w₂ hb
    use a, w₁
  apply hsafe.ends h

/-- A complete run of a loop starts with a complete run of its body. -/
theorem Ends.loop_inv
    {body : S → Prog R (S ⊕ A)} {s : S} {k : A → Prog R α} {w w₂ : W} {a : α}
    (h : Ends act (.loop body s k) w a w₂) :
  ∃ x w₁, Ends act (body s) w x w₁ ∧ Ends act (again body k x) w₁ a w₂
  := by
  rcases Relation.ReflTransGen.cases_head h with he | ⟨y, hy, hend⟩
  · cases he
  · cases hy
    apply Ends.bind_inv hend

/-- The program `p`, started in `w`, may issue the command `c` in `w'`. -/
def Issues (act : W → (c : C) → R c → W → Prop) (p : Prog R α) (w : W) (c : C) (w' : W) :
    Prop :=
  ∃ k, Reaches act (p, w) (.call c k, w')

/-- Every command issued by a safe program satisfies `φ`. -/
theorem Safe.issues
    {p : Prog R α} {Q : α → W → Prop} {w w' : W} {c : C} (h : Safe act φ p Q w)
    (hp : Issues act p w c w') :
  φ w' c
  := by
  obtain ⟨k, hk⟩ := hp
  apply (h.reaches hk).1

/-! ### Evaluation -/

/-- The state in which a loop is left, within `n` rounds, when `ev` evaluates its body. -/
def evalLoop (ev : S → W → Option ((S ⊕ A) × W)) : ℕ → S → W → Option (A × W)
  | 0, _, _ => none
  | n + 1, s, w =>
    match ev s w with
    | some (.inl s', w') => evalLoop ev n s' w'
    | some (.inr a, w') => some (a, w')
    | none => none

/-- The program evaluated with at most `n` rounds of each loop, when `answer` answers its
commands. -/
def eval (answer : W → (c : C) → Option (R c × W)) (n : ℕ) :
    {α : Type} → Prog R α → W → Option (α × W)
  | _, .ret a, w => some (a, w)
  | _, .call c k, w =>
    match answer w c with
    | some (r, w') => eval answer n (k r) w'
    | none => none
  | _, .loop body s k, w =>
    match evalLoop (fun s => eval answer n (body s)) n s w with
    | some (a, w') => eval answer n (k a) w'
    | none => none

/-- The environment which answers as the function `answer` does. -/
def Answers (answer : W → (c : C) → Option (R c × W)) : W → (c : C) → R c → W → Prop :=
  fun w c r w' => answer w c = some (r, w')

/-- An environment given by a function answers in one way. -/
theorem Answers.deterministic
    (answer : W → (c : C) → Option (R c × W)) :
  Deterministic (Answers answer)
  := by
  intro w c r r' w₁ w₂ h h'
  cases h.symm.trans h'
  apply And.intro rfl rfl

/-- A program that evaluates to `a` may return `a`. -/
theorem ends_of_eval
    {answer : W → (c : C) → Option (R c × W)} {n : ℕ} {p : Prog R α} {w w' : W} {a : α}
    (h : eval answer n p w = some (a, w')) :
  Ends (Answers answer) p w a w'
  := by
  induction p generalizing w w' with
  | ret a =>
      cases h
      apply Ends.ret
  | call c k ih =>
      rw [eval] at h
      split at h
      · next r w₁ hr =>
        apply Ends.call hr
        apply ih r h
      · cases h
  | loop body s k ihb ihk =>
      rw [eval] at h
      split at h
      case h_2 => cases h
      case h_1 b w₁ hb =>
        -- by the number of rounds
        have key : ∀ m s w, evalLoop (fun s => eval answer n (body s)) m s w = some (b, w₁) →
            Ends (Answers answer) (.loop body s k) w a w' := by
          intro m
          induction m with
          | zero =>
              intro s w hm
              cases hm
          | succ m ihm =>
              intro s w hm
              rw [evalLoop] at hm
              split at hm
              case h_1 s' w'' hs =>
                apply Ends.loop_again (ihb _ hs)
                apply ihm s' w'' hm
              case h_2 c w'' hs =>
                cases hm
                apply Ends.loop_done (ihb _ hs)
                apply ihk _ h
              case h_3 => cases hm
        apply key n s w hb

end Prog
