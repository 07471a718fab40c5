import RsyncRs.Program.Frame

/-!
# Outcomes

A procedure halts when it comes to an end on every closed input. It survives when what it
comes to is a result or an error that is not among the bad ones.
-/

/-- A run of a loop that returns comes to a round that returns. -/
theorem Prog.Ends.iterate_inv
    {C : Type} {R : C → Type} {W S A : Type} {act : W → (c : C) → R c → W → Prop}
    {body : S → Prog R (S ⊕ A)} {s : S} {w w' : W} {a : A}
    (h : Prog.Ends act (Prog.iterate body s) w a w') :
  ∃ s' w₁, Prog.Rounds act body (s, w) (s', w₁) ∧ Prog.Ends act (body s') w₁ (.inr a) w'
  := by
  have hsafe : Prog.Safe act (fun _ _ => True) (Prog.iterate body s)
      (fun a w' => ∃ s' w₁, Prog.Rounds act body (s, w) (s', w₁) ∧
        Prog.Ends act (body s') w₁ (.inr a) w') w := by
    apply Prog.Safe.iterate fun s' w' => Prog.Rounds act body (s, w) (s', w')
    · apply Relation.ReflTransGen.refl
    · intro s' w₁ hrounds
      apply Prog.safe_of_ends
      intro x w₂ hx
      cases x with
      | inl s'' =>
          have hround : Prog.Round act body (s', w₁) (s'', w₂) := hx
          apply hrounds.tail hround
      | inr a => exact ⟨s', w₁, hrounds, hx⟩
  apply hsafe.ends h

/-- An invariant of the states of a loop that returns holds where it returns. -/
theorem Proc.Returns.loop_keeps
    {B X H ε S A : Type} {Reply : X → Type} {answer : H → (x : X) → Option (Reply x × H)}
    {closed : Bool} {body : S → Proc B Reply ε (S ⊕ A)} {J : S → Prop} {Q : A → Prop}
    (hbody : ∀ s x w w', J s → Proc.Returns answer closed (body s) w x w' → Sum.elim J Q x)
    {s : S} (hs : J s) {w w' : Endpoint H B} {a : A}
    (h : Proc.Returns answer closed (Proc.loop body s) w a w') :
  Q a
  := by
  have hsafe : Proc.Safe (Prog.Answers (Endpoint.answer answer closed)) (fun _ _ => True)
      (Proc.loop body s) (fun a _ => Q a) (fun _ _ => True) w := by
    apply Proc.safe_loop fun s _ => J s
    · apply hs
    · intro s w hs
      apply Prog.safe_of_ends
      intro r w' hr
      cases r with
      | ok x =>
          have hx := hbody s x w w' hs hr
          cases x with
          | inl s' => apply hx
          | inr a => apply hx
      | error e => trivial
  apply Prog.Safe.ends hsafe h

/-- On a closed input a program that only reads comes to an end. -/
theorem Prog.OnlyReads.ends
    {B X H α : Type} {Reply : X → Type} (answer : H → (x : X) → Option (Reply x × H))
    {p : Prog (Answer (B := B) Reply) α} (hp : Prog.OnlyReads p) (w : Endpoint H B) :
  ∃ a w', Prog.Ends (Prog.Answers (Endpoint.answer answer true)) p w a w' ∧
    w'.input.length ≤ w.input.length
  := by
  induction p generalizing w with
  | ret a => exact ⟨a, w, Prog.Ends.ret a w, Nat.le_refl _⟩
  | loop body s k => cases hp
  | call c k ih =>
      cases c with
      | write bs => cases hp
      | flush => cases hp
      | host x => cases hp
      | read =>
          obtain ⟨r, w₁, hr, hle⟩ : ∃ r w₁, Endpoint.answer answer true w .read = some (r, w₁) ∧
              w₁.input.length ≤ w.input.length := by
            cases hw : w.input with
            | nil => exact ⟨none, w, by simp [Endpoint.answer, hw], by simp [hw]⟩
            | cons b bs =>
                refine ⟨some b, { w with input := bs }, by simp [Endpoint.answer, hw], ?_⟩
                apply Nat.le_succ
          obtain ⟨a, w₂, ha, hle₂⟩ := ih r (hp r) w₁
          exact ⟨a, w₂, Prog.Ends.call hr ha, Nat.le_trans hle₂ hle⟩

/-- A program that only writes comes to an end and leaves the input. -/
theorem Prog.OnlyWrites.ends
    {B X H α : Type} {Reply : X → Type} (answer : H → (x : X) → Option (Reply x × H))
    {p : Prog (Answer (B := B) Reply) α} (hp : Prog.OnlyWrites p) (w : Endpoint H B) :
  ∃ a w', Prog.Ends (Prog.Answers (Endpoint.answer answer true)) p w a w' ∧
    w'.input.length = w.input.length
  := by
  induction p generalizing w with
  | ret a => exact ⟨a, w, Prog.Ends.ret a w, rfl⟩
  | loop body s k => cases hp
  | call c k ih =>
      cases c with
      | read => cases hp
      | flush => cases hp
      | host x => cases hp
      | write bs =>
          obtain ⟨a, w', ha, hle⟩ := ih true (hp true) { w with buffer := w.buffer ++ bs }
          refine ⟨a, w', ?_, hle⟩
          apply Prog.Ends.call (r := (true : Bool)) rfl ha

namespace Proc

variable {B X H ε α β S A : Type} {Reply : X → Type}
  {answer : H → (x : X) → Option (Reply x × H)} {closed : Bool}

/-! ### Failures -/

theorem Fails.of_pure
    {a : α} {e : ε} {w w' : Endpoint H B}
    (h : Fails answer closed (pure a : Proc B Reply ε α) w e w') :
  False
  := by
  cases (Prog.Ends.of_ret h).1

/-- Two procedures fail when the first one does, or when it returns and the second one
fails. -/
theorem fails_bind_iff
    {p : Proc B Reply ε α} {f : α → Proc B Reply ε β} {w w' : Endpoint H B} {e : ε} :
  Fails answer closed (p >>= f) w e w' ↔
    Fails answer closed p w e w' ∨
      ∃ a w₁, Returns answer closed p w a w₁ ∧ Fails answer closed (f a) w₁ e w'
  := by
  constructor
  · intro h
    obtain ⟨r, w₁, hr, hend⟩ := Prog.Ends.bind_inv h
    cases r with
    | ok a => exact .inr ⟨a, w₁, hr, hend⟩
    | error e' =>
        obtain ⟨he, rfl⟩ := Prog.Ends.of_ret hend
        cases he
        apply Or.inl hr
  · rintro (h | ⟨a, w₁, hp, hf⟩)
    · apply h.bind
    · apply hp.bind_fails hf

/-- A loop fails when it comes to a round that does. -/
theorem fails_loop_iff
    {body : S → Proc B Reply ε (S ⊕ A)} {s : S} {w w' : Endpoint H B} {e : ε} :
  Fails answer closed (loop body s) w e w' ↔
    ∃ s' w₁, Rounds answer closed body (s, w) (s', w₁) ∧ Fails answer closed (body s') w₁ e w'
  := by
  constructor
  · intro h
    obtain ⟨s', w₁, hrounds, hround⟩ := Prog.Ends.iterate_inv h
    obtain ⟨r, w₂, hr, hret⟩ := Prog.Ends.bind_inv hround
    obtain ⟨hnext, rfl⟩ := Prog.Ends.of_ret hret
    refine ⟨s', w₁, hrounds, ?_⟩
    rcases r with e' | s'' | a
    · cases hnext
      apply hr
    · cases hnext
    · cases hnext
  · rintro ⟨s', w₁, hrounds, hf⟩
    have hlast : Prog.Ends (Prog.Answers (Endpoint.answer answer closed)) (round body s') w₁
        (.inr (.error e)) w' := Prog.Ends.bind hf (Prog.Ends.ret _ _)
    generalize hx : (s, w) = x at hrounds
    generalize hy : (s', w₁) = y at hrounds
    induction hrounds using Relation.ReflTransGen.head_induction_on generalizing s w with
    | refl =>
        cases hy
        cases hx
        apply Prog.Ends.loop_done hlast (Prog.Ends.ret _ _)
    | head hxy _ ih =>
        subst hx
        apply Prog.Ends.loop_again hxy (ih rfl)

/-! ### Errors that are avoided -/

/-- When the procedure returns, `φ` holds of its result and of the endpoint that it leaves. -/
def After (answer : H → (x : X) → Option (Reply x × H)) (closed : Bool) (p : Proc B Reply ε α)
    (w : Endpoint H B) (φ : α → Endpoint H B → Prop) : Prop :=
  ∀ a w', Returns answer closed p w a w' → φ a w'

/-- The procedure does not fail with a bad error. -/
def Avoids (answer : H → (x : X) → Option (Reply x × H)) (closed : Bool) (bad : ε → Prop)
    (p : Proc B Reply ε α) (w : Endpoint H B) : Prop :=
  ∀ e w', Fails answer closed p w e w' → ¬ bad e

variable {bad : ε → Prop}

theorem after_pure_iff
    {a : α} {w : Endpoint H B} {φ : α → Endpoint H B → Prop} :
  After answer closed (pure a : Proc B Reply ε α) w φ ↔ φ a w
  := by
  constructor
  · intro h
    apply h a w (returns_pure a w)
  · intro h b w' hb
    obtain ⟨rfl, rfl⟩ := hb.pure_inv
    apply h

/-- What is known to be returned is all that comes after. -/
theorem Returns.after_iff
    {p : Proc B Reply ε α} {w w' : Endpoint H B} {a : α} (h : Returns answer closed p w a w')
    {φ : α → Endpoint H B → Prop} :
  After answer closed p w φ ↔ φ a w'
  := by
  constructor
  · intro hφ
    apply hφ a w' h
  · intro hφ b w₁ hb
    obtain ⟨rfl, rfl⟩ := h.unique hb
    apply hφ

/-- Nothing comes after a procedure that fails. -/
theorem Fails.after
    {p : Proc B Reply ε α} {w w' : Endpoint H B} {e : ε} (h : Fails answer closed p w e w')
    (φ : α → Endpoint H B → Prop) :
  After answer closed p w φ
  := by
  intro a w₁ ha
  cases h.not_returns ha

theorem after_congr
    {p : Proc B Reply ε α} {w : Endpoint H B} {φ ψ : α → Endpoint H B → Prop}
    (h : ∀ a w', φ a w' ↔ ψ a w') :
  After answer closed p w φ ↔ After answer closed p w ψ
  := by
  apply forall_congr'
  intro a
  apply forall_congr'
  intro w'
  rw [h]

theorem after_bind_iff
    {p : Proc B Reply ε α} {f : α → Proc B Reply ε β} {w : Endpoint H B}
    {φ : β → Endpoint H B → Prop} :
  After answer closed (p >>= f) w φ ↔
    After answer closed p w fun a w' => After answer closed (f a) w' φ
  := by
  constructor
  · intro h a w₁ ha b w₂ hb
    apply h b w₂ (ha.bind hb)
  · intro h b w₂ hb
    obtain ⟨a, w₁, ha, hb⟩ := hb.bind_inv
    apply h a w₁ ha b w₂ hb

/-- What comes after a procedure that only reads depends on its input alone. -/
theorem OnlyReads.after_congr
    {p : Proc B Reply ε α} (hp : OnlyReads p) {v w : Endpoint H B} (hv : v.input = w.input)
    {φ ψ : α → Endpoint H B → Prop}
    (h : ∀ a input, Returns answer closed p w a { w with input := input } →
      (φ a { v with input := input } ↔ ψ a { w with input := input })) :
  After answer closed p v φ ↔ After answer closed p w ψ
  := by
  constructor
  · intro hφ a w' ha
    obtain ⟨hw', hframe⟩ := hp.frame ha
    rw [hw'] at ha ⊢
    apply (h a _ ha).mp (hφ a _ (hframe v hv))
  · intro hψ a v' ha
    obtain ⟨hv', hframe⟩ := hp.frame ha
    have ha' := hframe w hv.symm
    rw [hv']
    apply (h a _ ha').mpr (hψ a _ ha')

theorem avoids_pure
    (a : α) (w : Endpoint H B) :
  Avoids answer closed bad (pure a : Proc B Reply ε α) w
  := by
  intro e w' h
  cases h.of_pure

theorem avoids_throw_iff
    {e : ε} {w : Endpoint H B} :
  Avoids answer closed bad (throw e : Proc B Reply ε α) w ↔ ¬ bad e
  := by
  constructor
  · intro h
    apply h e w (Prog.Ends.ret _ _)
  · intro h e' w' he
    cases (Prog.Ends.of_ret he).1
    apply h

theorem avoids_bind_iff
    {p : Proc B Reply ε α} {f : α → Proc B Reply ε β} {w : Endpoint H B} :
  Avoids answer closed bad (p >>= f) w ↔
    Avoids answer closed bad p w ∧
      After answer closed p w fun a w' => Avoids answer closed bad (f a) w'
  := by
  constructor
  · intro h
    constructor
    · intro e w' he
      apply h e w' he.bind
    · intro a w₁ ha e w' he
      apply h e w' (ha.bind_fails he)
  · rintro ⟨hp, hf⟩ e w' he
    rcases fails_bind_iff.mp he with he | ⟨a, w₁, ha, he⟩
    · apply hp e w' he
    · apply hf a w₁ ha e w' he

/-- A procedure avoids the bad errors when each of its two parts does everywhere. -/
theorem avoids_andThen
    {p : Proc B Reply ε α} {f : α → Proc B Reply ε β}
    (hp : ∀ w : Endpoint H B, Avoids answer closed bad p w)
    (hf : ∀ a (w : Endpoint H B), Avoids answer closed bad (f a) w) (w : Endpoint H B) :
  Avoids answer closed bad (p >>= f) w
  := by
  apply avoids_bind_iff.mpr
  apply And.intro (hp w)
  intro a w' _
  apply hf a w'

theorem avoids_read
    {e : ε} (he : ¬ bad e) (w : Endpoint H B) :
  Avoids answer closed bad (read e : Proc B Reply ε B) w
  := by
  intro e' w' h
  obtain ⟨r, w₁, -, hend⟩ := Prog.Ends.bind_inv h
  cases r with
  | none =>
      cases (Prog.Ends.of_ret hend).1
      apply he
  | some b => cases (Prog.Ends.of_ret hend).1

theorem avoids_readExact
    {e : ε} (he : ¬ bad e) (n : ℕ) (w : Endpoint H B) :
  Avoids answer closed bad (readExact e n : Proc B Reply ε (List B)) w
  := by
  induction n generalizing w with
  | zero => apply avoids_pure
  | succ n ih =>
      apply avoids_bind_iff.mpr
      apply And.intro (avoids_read he w)
      intro b w₁ _
      apply avoids_bind_iff.mpr
      apply And.intro (ih w₁)
      intro bs w₂ _
      apply avoids_pure

theorem Fails.avoids_iff
    {p : Proc B Reply ε α} {w w' : Endpoint H B} {e : ε} (h : Fails answer closed p w e w') :
  Avoids answer closed bad p w ↔ ¬ bad e
  := by
  constructor
  · intro ha
    apply ha e w' h
  · intro hgood e' w₁ he
    obtain ⟨herror, -⟩ := Prog.Ends.unique (Prog.Answers.deterministic _) h he
    cases herror
    apply hgood

/-- A procedure that returns does not fail. -/
theorem Returns.avoids
    {p : Proc B Reply ε α} {w w' : Endpoint H B} {a : α} (h : Returns answer closed p w a w') :
  Avoids answer closed bad p w
  := by
  intro e w₁ he
  cases he.not_returns h

/-- What is written does not fail. -/
theorem Writes.avoids
    {p : Proc B Reply ε α} {bs : List B} {a : α} (h : Writes answer p bs a) (w : Endpoint H B) :
  Avoids answer closed bad p w
  := (h closed w).avoids

/-- What goes on after something written fails as it does with that in the buffer. -/
theorem Writes.avoids_bind_iff
    {p : Proc B Reply ε α} {f : α → Proc B Reply ε β} {bs : List B} {a : α}
    (h : Writes answer p bs a) (w : Endpoint H B) :
  Avoids answer closed bad (p >>= f) w ↔
    Avoids answer closed bad (f a) { w with buffer := w.buffer ++ bs }
  := by
  rw [Proc.avoids_bind_iff, and_iff_right (h.avoids w), (h closed w).after_iff]

/-- A procedure that goes on without a bad error fails as it did. -/
theorem avoids_first_iff
    {p : Proc B Reply ε α} {f : α → Proc B Reply ε β} {w : Endpoint H B}
    (hf : ∀ a (w : Endpoint H B), Avoids answer closed bad (f a) w) :
  Avoids answer closed bad (p >>= f) w ↔ Avoids answer closed bad p w
  := by
  rw [avoids_bind_iff]
  apply and_iff_left
  intro a w' _
  apply hf

/-- A procedure that goes on with a pure function fails as it did. -/
theorem avoids_map_iff
    {p : Proc B Reply ε α} {f : α → β} {w : Endpoint H B} :
  Avoids answer closed bad (p >>= fun a => pure (f a)) w ↔ Avoids answer closed bad p w
  := avoids_first_iff fun a w => avoids_pure (f a) w

theorem avoids_loop_iff
    {body : S → Proc B Reply ε (S ⊕ A)} {s : S} {w : Endpoint H B} :
  Avoids answer closed bad (loop body s) w ↔
    ∀ s' w', Rounds answer closed body (s, w) (s', w') → Avoids answer closed bad (body s') w'
  := by
  constructor
  · intro h s' w₁ hrounds e w' he
    apply h e w' (fails_loop_iff.mpr ⟨s', w₁, hrounds, he⟩)
  · intro h e w' he
    obtain ⟨s', w₁, hrounds, he⟩ := fails_loop_iff.mp he
    apply h s' w₁ hrounds e w' he

/-! ### Procedures that halt -/

/-- On every closed input the procedure comes to an end, and it consumes at least `k` symbols
when it returns. -/
def Halts (answer : H → (x : X) → Option (Reply x × H)) (p : Proc B Reply ε α) (k : ℕ) : Prop :=
  ∀ w : Endpoint H B, (∃ e w', Fails answer true p w e w') ∨
    ∃ a w', Returns answer true p w a w' ∧ w'.input.length + k ≤ w.input.length

theorem halts_pure
    (a : α) :
  Halts answer (pure a : Proc B Reply ε α) 0
  := by
  intro w
  exact .inr ⟨a, w, returns_pure a w, Nat.le_refl _⟩

theorem halts_throw
    (e : ε) (k : ℕ) :
  Halts answer (throw e : Proc B Reply ε α) k
  := by
  intro w
  exact .inl ⟨e, w, Prog.Ends.ret _ _⟩

theorem halts_read
    (e : ε) :
  Halts answer (read e : Proc B Reply ε B) 1
  := by
  intro w
  cases hw : w.input with
  | nil => exact .inl ⟨e, w, fails_read e hw⟩
  | cons b bs => exact .inr ⟨b, _, returns_read e b hw, Nat.le_refl _⟩

theorem Halts.bind
    {p : Proc B Reply ε α} {f : α → Proc B Reply ε β} {k l : ℕ} (hp : Halts answer p k)
    (hf : ∀ a, Halts answer (f a) l) :
  Halts answer (p >>= f) (k + l)
  := by
  intro w
  rcases hp w with ⟨e, w', he⟩ | ⟨a, w₁, ha, hk⟩
  · exact .inl ⟨e, w', he.bind⟩
  · rcases hf a w₁ with ⟨e, w', he⟩ | ⟨b, w', hb, hl⟩
    · exact .inl ⟨e, w', ha.bind_fails he⟩
    · refine .inr ⟨b, w', ha.bind hb, ?_⟩
      omega

theorem Halts.mono
    {p : Proc B Reply ε α} {k l : ℕ} (hp : Halts answer p k) (hl : l ≤ k) :
  Halts answer p l
  := by
  intro w
  rcases hp w with h | ⟨a, w', ha, hk⟩
  · apply Or.inl h
  · refine .inr ⟨a, w', ha, ?_⟩
    omega

/-- A procedure that consumes something goes on with procedures that halt. -/
theorem Halts.first
    {p : Proc B Reply ε α} {f : α → Proc B Reply ε β} (hp : Halts answer p 1)
    (hf : ∀ a, Halts answer (f a) 0) :
  Halts answer (p >>= f) 1
  := hp.bind hf

/-- A procedure that halts goes on with procedures that halt. -/
theorem Halts.andThen
    {p : Proc B Reply ε α} {f : α → Proc B Reply ε β} (hp : Halts answer p 0)
    (hf : ∀ a, Halts answer (f a) 0) :
  Halts answer (p >>= f) 0
  := hp.bind hf

theorem halts_readExact
    (e : ε) (n : ℕ) :
  Halts answer (readExact e n : Proc B Reply ε (List B)) 0
  := by
  induction n with
  | zero => apply halts_pure
  | succ n ih =>
      apply ((halts_read e).mono (Nat.zero_le 1)).andThen
      intro b
      apply ih.andThen
      intro bs
      apply halts_pure

theorem halts_readExact_succ
    (e : ε) (n : ℕ) :
  Halts answer (readExact e (n + 1) : Proc B Reply ε (List B)) 1
  := by
  apply (halts_read e).first
  intro b
  apply (halts_readExact e n).andThen
  intro bs
  apply halts_pure

/-- What is known to return without taking input halts. -/
theorem halts_of_returns
    {p : Proc B Reply ε α}
    (h : ∀ w : Endpoint H B, ∃ a w', Returns answer true p w a w' ∧ w'.input = w.input) :
  Halts answer p 0
  := by
  intro w
  obtain ⟨a, w', ha, hinput⟩ := h w
  refine .inr ⟨a, w', ha, ?_⟩
  rw [hinput]
  apply Nat.le_refl

/-- A loop halts when each of its rounds consumes something. -/
theorem halts_loop
    {body : S → Proc B Reply ε (S ⊕ A)} (h : ∀ s, Halts answer (body s) 1) (s : S) :
  Halts answer (loop body s) 0
  := by
  intro w
  -- by the number of symbols that are left
  induction hn : w.input.length using Nat.strongRecOn generalizing s w with
  | _ n ih =>
      rcases h s w with ⟨e, w', he⟩ | ⟨x, w₁, hx, hlt⟩
      · refine .inl ⟨e, w', fails_loop_iff.mpr ⟨s, w, ?_, he⟩⟩
        apply Relation.ReflTransGen.refl
      · cases x with
        | inr a => exact .inr ⟨a, w₁, returns_loop_done hx, by omega⟩
        | inl s' =>
            rcases ih w₁.input.length (by omega) s' w₁ rfl with ⟨e, w', he⟩ | ⟨a, w', ha, hle⟩
            · obtain ⟨s'', w₂, hrounds, he⟩ := fails_loop_iff.mp he
              refine .inl ⟨e, w', fails_loop_iff.mpr ⟨s'', w₂, ?_, he⟩⟩
              exact Relation.ReflTransGen.head (round_iff.mpr hx) hrounds
            · exact .inr ⟨a, w', returns_loop_again hx ha, by omega⟩

/-- A procedure that only reads halts. -/
theorem OnlyReads.halts
    {p : Proc B Reply ε α} (hp : OnlyReads p) :
  Halts answer p 0
  := by
  intro w
  obtain ⟨r, w', hr, hle⟩ := Prog.OnlyReads.ends answer hp w
  cases r with
  | error e => exact .inl ⟨e, w', hr⟩
  | ok a => exact .inr ⟨a, w', hr, hle⟩

/-- A procedure that only writes halts. -/
theorem OnlyWrites.halts
    {p : Proc B Reply ε α} (hp : OnlyWrites p) :
  Halts answer p 0
  := by
  intro w
  obtain ⟨r, w', hr, hinput⟩ := Prog.OnlyWrites.ends answer hp w
  cases r with
  | error e => exact .inl ⟨e, w', hr⟩
  | ok a => exact .inr ⟨a, w', hr, Nat.le_of_eq hinput⟩

/-- The procedure returns, or it fails with an error that is not bad. -/
def Survives (answer : H → (x : X) → Option (Reply x × H)) (bad : ε → Prop)
    (p : Proc B Reply ε α) (w : Endpoint H B) : Prop :=
  (∃ a w', Returns answer true p w a w') ∨ ∃ e w', Fails answer true p w e w' ∧ ¬ bad e

/-- A procedure that halts survives exactly when it avoids the bad errors. -/
theorem Halts.survives_iff
    {p : Proc B Reply ε α} {k : ℕ} (hp : Halts answer p k) {w : Endpoint H B} :
  Survives answer bad p w ↔ Avoids answer true bad p w
  := by
  constructor
  · rintro (⟨a, w₁, ha⟩ | ⟨e₁, w₁, he₁, hgood⟩) e w' he
    · cases he.not_returns ha
    · obtain ⟨herror, -⟩ := Prog.Ends.unique (Prog.Answers.deterministic _) he₁ he
      cases herror
      apply hgood
  · intro h
    rcases hp w with ⟨e, w', he⟩ | ⟨a, w', ha, -⟩
    · exact .inr ⟨e, w', he, h e w' he⟩
    · exact .inl ⟨a, w', ha⟩

end Proc
