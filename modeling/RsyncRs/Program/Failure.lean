import RsyncRs.Program.Channel

/-!
# Procedures that fail

What has to hold where a procedure starts so that something holds of its host wherever it fails.
Each rule says exactly when that is so.
-/

namespace Proc

variable {H B X : Type} {Reply : X → Type} {ε α β ρ : Type}
  {answer : H → (x : X) → Option (Reply x × H)} {closed : Bool} {w w' : Endpoint H B}
  {K : H → Prop}

/-- When the procedure, started at the endpoint `w`, fails, `K` holds of its host. -/
def FailsInto (answer : H → (x : X) → Option (Reply x × H)) (closed : Bool)
    (p : Proc B Reply ε α) (w : Endpoint H B) (K : H → Prop) : Prop :=
  ∀ e w', Fails answer closed p w e w' → K w'.host

theorem failsInto_pure
    (a : α) (w : Endpoint H B) (K : H → Prop) :
  FailsInto answer closed (pure a : Proc B Reply ε α) w K
  := by
  intro e w' h
  cases (Prog.Ends.of_ret h).1

theorem failsInto_throw_iff
    {e : ε} :
  FailsInto answer closed (throw e : Proc B Reply ε α) w K ↔ K w.host
  := by
  constructor
  · intro h
    exact h e w (Prog.Ends.ret _ w)
  · intro h e' w' hfails
    rw [(Prog.Ends.of_ret hfails).2]
    exact h

theorem failsInto_bind_iff
    {p : Proc B Reply ε α} {f : α → Proc B Reply ε β} :
  FailsInto answer closed (p >>= f) w K ↔ FailsInto answer closed p w K ∧
    ∀ a w₁, Returns answer closed p w a w₁ → FailsInto answer closed (f a) w₁ K
  := by
  constructor
  · intro h
    constructor
    · exact fun e w' hp => h e w' hp.bind
    · exact fun a w₁ hp e w' hf => h e w' (hp.bind_fails hf)
  · rintro ⟨hp, hf⟩ e w' h
    obtain ⟨r, w₁, hr, hrest⟩ := Prog.Ends.bind_inv h
    cases r with
    | error e' =>
        obtain ⟨-, rfl⟩ := Prog.Ends.of_ret hrest
        exact hp e' w' hr
    | ok a => exact hf a w₁ hr e w' hrest

/-- The procedure does what one call does, which is answered as `ans` says. -/
structure Calls (answer : H → (x : X) → Option (Reply x × H)) (closed : Bool)
    (p : Proc B Reply ε ρ) (w : Endpoint H B) (ans : Option (ρ × H)) : Prop where
  fails : ∀ e w', ¬ Fails answer closed p w e w'
  returns : ∀ r w',
    Returns answer closed p w r w' ↔ ∃ h, ans = some (r, h) ∧ w' = { w with host := h }

theorem calls_host
    (x : X) (w : Endpoint H B) :
  Calls answer closed (host x : Proc B Reply ε (Reply x)) w (answer w.host x)
  where
  fails e w' h := by
    obtain ⟨r, w₁, -, hrest⟩ := Prog.Ends.bind_inv h
    cases (Prog.Ends.of_ret hrest).1
  returns r w' := by
    constructor
    · intro h
      obtain ⟨r', w₁, hcall, hrest⟩ := Prog.Ends.bind_inv h
      obtain ⟨heq, rfl⟩ := Prog.Ends.of_ret hrest
      cases heq
      rcases Relation.ReflTransGen.cases_head hcall with heq | ⟨y, hy, hret⟩
      · cases heq
      cases hy with
      | call hact =>
          obtain ⟨rfl, rfl⟩ := Prog.Ends.of_ret hret
          simp only [Prog.Answers, Endpoint.answer] at hact
          split at hact
          · next r'' h' hanswer =>
            cases hact
            exact ⟨h', hanswer, rfl⟩
          · cases hact
    · rintro ⟨h, hanswer, rfl⟩
      have hact : Endpoint.answer answer closed w (.host x) = some (r, { w with host := h }) := by
        simp only [Endpoint.answer, hanswer]
        rfl
      exact Prog.Ends.bind (Prog.Ends.perform hact) (Prog.Ends.ret _ _)

variable {ans : Option (ρ × H)} {p : Proc B Reply ε ρ} {f : ρ → Proc B Reply ε α}

/-- After a call, the procedure goes on with what was answered. -/
theorem Calls.bind_iff
    (h : Calls answer closed p w ans) :
  FailsInto answer closed (p >>= f) w K ↔
    ∀ r d, ans = some (r, d) → FailsInto answer closed (f r) { w with host := d } K
  := by
  rw [failsInto_bind_iff]
  constructor
  · rintro ⟨-, hf⟩ r d hans
    exact hf r _ ((h.returns r _).mpr ⟨d, hans, rfl⟩)
  · intro hf
    refine ⟨fun e w' hfails => absurd hfails (h.fails e w'), fun r w₁ hr => ?_⟩
    obtain ⟨d, hans, rfl⟩ := (h.returns r w₁).mp hr
    exact hf r d hans

end Proc
