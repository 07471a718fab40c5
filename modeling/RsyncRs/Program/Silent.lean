import RsyncRs.Program.Outcome

/-!
# Procedures that write nothing

A procedure that asks its host and writes nothing may be passed over: what is written after it
is written by what follows.
-/

namespace Prog

variable {C : Type} {R : C → Type} {W : Type} {act : W → (c : C) → R c → W → Prop} {α β : Type}

theorem Issues.step
    {p q : Prog R α} {w w₁ w' : W} {c : C} (hs : Step act (p, w) (q, w₁))
    (h : Issues act q w₁ c w') :
  Issues act p w c w'
  := by
  obtain ⟨k, hk⟩ := h
  exact ⟨k, Relation.ReflTransGen.head hs hk⟩

theorem Issues.bind_left
    {p : Prog R α} {w w' : W} {c : C} (h : Issues act p w c w') (f : α → Prog R β) :
  Issues act (p >>= f) w c w'
  := by
  obtain ⟨k, hk⟩ := h
  exact ⟨_, hk.bind f⟩

theorem Issues.bind_right
    {p : Prog R α} {f : α → Prog R β} {w w₁ w' : W} {a : α} {c : C} (hp : Ends act p w a w₁)
    (h : Issues act (f a) w₁ c w') :
  Issues act (p >>= f) w c w'
  := by
  obtain ⟨k, hk⟩ := h
  exact ⟨k, (Reaches.bind hp f).trans hk⟩

/-- What holds of every command that a program may issue, and of everything that it may
return, is established by `Safe`. -/
theorem safe_of_issues
    {φ : W → C → Prop} {p : Prog R α} {Q : α → W → Prop} {w : W}
    (hφ : ∀ c w', Issues act p w c w' → φ w' c) (hQ : ∀ a w', Ends act p w a w' → Q a w') :
  Safe act φ p Q w
  := by
  induction p generalizing w with
  | ret a => apply hQ a w (Ends.ret a w)
  | call c k ih =>
      apply And.intro (hφ c w ⟨k, Relation.ReflTransGen.refl⟩)
      intro r w' hr
      apply ih r
      · intro c' w'' h
        apply hφ c' w'' (h.step (Step.call hr))
      · intro a w'' ha
        apply hQ a w'' (Ends.call hr ha)
  | loop body s k ihb ihk =>
      -- the invariant: the same holds of the loop that starts here
      refine ⟨fun s w => (∀ c w', Issues act (.loop body s k) w c w' → φ w' c) ∧
        ∀ a w', Ends act (.loop body s k) w a w' → Q a w', ⟨hφ, hQ⟩, ?_⟩
      rintro s w ⟨hφ, hQ⟩
      apply ihb s
      · intro c w' h
        apply hφ c w' ((h.bind_left _).step Step.loop)
      · intro x w₁ hx
        cases x with
        | inl s' =>
            constructor
            · intro c w' h
              apply hφ c w' ((Issues.bind_right hx h).step Step.loop)
            · intro a w' ha
              apply hQ a w' (Ends.loop_again hx ha)
        | inr b =>
            apply ihk b
            · intro c w' h
              apply hφ c w' ((Issues.bind_right hx h).step Step.loop)
            · intro a w' ha
              apply hQ a w' (Ends.loop_done hx ha)

/-- A command of two programs is one of the first, or one of the second after the first has
returned. -/
theorem Issues.bind_inv
    {p : Prog R α} {f : α → Prog R β} {w w' : W} {c : C} (h : Issues act (p >>= f) w c w') :
  Issues act p w c w' ∨ ∃ a w₁, Ends act p w a w₁ ∧ Issues act (f a) w₁ c w'
  := by
  have hsafe : Safe act (fun w' c => Issues act p w c w' ∨
      ∃ a w₁, Ends act p w a w₁ ∧ Issues act (f a) w₁ c w') (p >>= f) (fun _ _ => True) w := by
    apply Safe.bind
    apply safe_of_issues
    · intro c w' h
      apply Or.inl h
    · intro a w₁ ha
      apply safe_of_issues
      · intro c w' h
        exact Or.inr ⟨a, w₁, ha, h⟩
      · intro b w₂ _
        trivial
  apply hsafe.issues h

end Prog

namespace Proc

variable {B X : Type} {Reply : X → Type} {H : Type} {ε α β : Type}
  {answer : H → (x : X) → Option (Reply x × H)} {closed : Bool}

/-- The procedure, started at the endpoint `w`, writes something. -/
def Speaks (answer : H → (x : X) → Option (Reply x × H)) (closed : Bool)
    (p : Proc B Reply ε α) (w : Endpoint H B) : Prop :=
  ∃ bs w', Prog.Issues (Prog.Answers (Endpoint.answer answer closed)) p.run w (.write bs) w'

theorem not_speaks_pure
    (a : α) (w : Endpoint H B) :
  ¬ Speaks answer closed (pure a : Proc B Reply ε α) w
  := by
  rintro ⟨bs, w', k, hk⟩
  rcases Relation.ReflTransGen.cases_head hk with he | ⟨y, hy, -⟩
  · cases he
  · cases hy

theorem not_speaks_host
    (x : X) (w : Endpoint H B) :
  ¬ Speaks answer closed (host x : Proc B Reply ε (Reply x)) w
  := by
  rintro ⟨bs, w', h⟩
  have hsafe : Safe (Prog.Answers (Endpoint.answer answer closed))
      (fun _ c => ∀ bs, c ≠ .write bs) (host x : Proc B Reply ε (Reply x)) (fun _ _ => True)
      (fun _ _ => True) w := by
    apply safe_host
    · nofun
    · intro _ _ _
      trivial
  apply Prog.Safe.issues hsafe h bs rfl

theorem speaks_write
    (e : ε) (bs : List B) (w : Endpoint H B) :
  Speaks answer closed (write e bs : Proc B Reply ε Unit) w
  := ⟨bs, w, _, Relation.ReflTransGen.refl⟩

theorem Speaks.bind
    {p : Proc B Reply ε α} {w : Endpoint H B} (h : Speaks answer closed p w)
    (f : α → Proc B Reply ε β) :
  Speaks answer closed (p >>= f) w
  := by
  obtain ⟨bs, w', h⟩ := h
  exact ⟨bs, w', h.bind_left _⟩

/-- After a procedure that writes nothing, what is written is written by what follows. -/
theorem speaks_bind_iff
    {p : Proc B Reply ε α} {f : α → Proc B Reply ε β} {w w₁ : Endpoint H B} {a : α}
    (hp : Returns answer closed p w a w₁) (hsilent : ¬ Speaks answer closed p w) :
  Speaks answer closed (p >>= f) w ↔ Speaks answer closed (f a) w₁
  := by
  constructor
  · rintro ⟨bs, w', h⟩
    rcases Prog.Issues.bind_inv h with h | ⟨r, w₂, hr, h⟩
    · cases hsilent ⟨bs, w', h⟩
    · obtain ⟨rfl, rfl⟩ := Prog.Ends.unique (Prog.Answers.deterministic _) hp hr
      exact ⟨bs, w', h⟩
  · rintro ⟨bs, w', h⟩
    exact ⟨bs, w', Prog.Issues.bind_right hp h⟩

theorem not_speaks_bind
    {p : Proc B Reply ε α} {f : α → Proc B Reply ε β} {w w₁ : Endpoint H B} {a : α}
    (hp : Returns answer closed p w a w₁) (hsilent : ¬ Speaks answer closed p w)
    (hf : ¬ Speaks answer closed (f a) w₁) :
  ¬ Speaks answer closed (p >>= f) w
  := by
  rwa [speaks_bind_iff hp hsilent]

end Proc
