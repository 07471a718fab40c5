import RsyncRs.Program.Silent

/-!
# Triples

A triple says what holds when a procedure comes to an end that was started where its precondition
holds. Some of the procedures that a run comes to may be watched: the triple then speaks of the
runs in which each watched procedure is started where its own condition holds.
-/

namespace Prog

variable {C : Type} {R : C → Type} {W : Type} {act : W → (c : C) → R c → W → Prop}
  {α β γ : Type}

/-- The program `p`, started in `w`, may come to the program `q` in `w'`. -/
def Visits (act : W → (c : C) → R c → W → Prop) (p : Prog R α) (w : W) (q : Prog R β) (w' : W) :
    Prop :=
  ∃ k : β → Prog R α, Reaches act (p, w) (q >>= k, w')

theorem Visits.refl
    (p : Prog R α) (w : W) :
  Visits act p w p w
  := by
  refine ⟨Prog.ret, ?_⟩
  rw [bind_ret]
  exact Relation.ReflTransGen.refl

theorem Visits.bind_left
    {p : Prog R α} {q : Prog R β} {w w' : W} (h : Visits act p w q w') (f : α → Prog R γ) :
  Visits act (p >>= f) w q w'
  := by
  obtain ⟨k, hk⟩ := h
  refine ⟨fun b => k b >>= f, ?_⟩
  rw [← bind_assoc]
  exact hk.bind f

theorem Visits.bind_right
    {p : Prog R α} {f : α → Prog R γ} {q : Prog R β} {w w₁ w' : W} {a : α}
    (hp : Ends act p w a w₁) (h : Visits act (f a) w₁ q w') :
  Visits act (p >>= f) w q w'
  := by
  obtain ⟨k, hk⟩ := h
  exact ⟨k, (Reaches.bind hp f).trans hk⟩

/-- When a program with another one after it is safe, the first one is safe and so is the second
one on its results. -/
theorem Safe.of_bind
    {φ : W → C → Prop} {p : Prog R α} {f : α → Prog R β} {Q : β → W → Prop} {w : W}
    (h : Safe act φ (p >>= f) Q w) :
  Safe act φ p (fun a w => Safe act φ (f a) Q w) w
  := by
  induction p generalizing w with
  | ret a => exact h
  | call c k ih =>
      refine And.intro h.1 fun r w' hr => ?_
      exact ih r (h.2 r w' hr)
  | loop body s k _ ihk =>
      obtain ⟨J, hs, hJ⟩ := h
      refine ⟨J, hs, fun s w hs => ?_⟩
      apply (hJ s w hs).mono
      intro x w hx
      cases x with
      | inl s => exact hx
      | inr a => exact ihk a hx

/-- The environment that answers as the function `answer` does, but only the commands which
satisfy `ok`. -/
def onlyIf (ok : W → C → Bool) (answer : W → (c : C) → Option (R c × W)) :
    W → (c : C) → Option (R c × W) :=
  fun w c => if ok w c then answer w c else none

/-- A program that comes to its end when only some commands are answered issues no others. -/
theorem safe_of_ends_onlyIf
    {ok : W → C → Bool} {answer : W → (c : C) → Option (R c × W)} {p : Prog R α} {w w' : W} {a : α}
    (h : Ends (Answers (onlyIf ok answer)) p w a w') :
  Safe (Answers answer) (fun w c => ok w c = true) p (fun b w₁ => b = a ∧ w₁ = w') w
  := by
  induction p generalizing w w' with
  | ret b =>
      obtain ⟨rfl, rfl⟩ := Ends.of_ret h
      exact ⟨rfl, rfl⟩
  | call c k ih =>
      rcases Relation.ReflTransGen.cases_head h with heq | ⟨x, hx, hrest⟩
      · cases heq
      cases hx with
      | call hr =>
          simp only [Answers, onlyIf] at hr
          split at hr
          · next hok =>
            refine And.intro hok fun r w₁ hr' => ?_
            cases hr.symm.trans hr'
            exact ih _ hrest
          · cases hr
  | loop body s k ihb ihk =>
      refine ⟨fun s w => Ends (Answers (onlyIf ok answer)) (.loop body s k) w a w', h, ?_⟩
      intro s w hs
      obtain ⟨x, w₁, hbody, hagain⟩ := Ends.loop_inv hs
      apply (ihb s hbody).mono
      rintro y w₂ ⟨rfl, rfl⟩
      cases y with
      | inl s => exact hagain
      | inr b => exact ihk b hagain

/-- Does `ok` hold of all that the program comes to within `n` steps, before it ends? -/
def holdsAlong (ok : Prog R α → W → Bool) (answer : W → (c : C) → Option (R c × W)) :
    ℕ → Prog R α → W → Bool
  | _, .ret a, w => ok (.ret a) w
  | 0, _, _ => false
  | n + 1, .call c k, w =>
    ok (.call c k) w &&
      match answer w c with
      | some (r, w') => holdsAlong ok answer n (k r) w'
      | none => true
  | n + 1, .loop body s k, w => ok (.loop body s k) w && holdsAlong ok answer n (unroll body s k) w

/-- What holds along the run of a program holds of all that it comes to. -/
theorem Reaches.of_holdsAlong
    {ok : Prog R α → W → Bool} {answer : W → (c : C) → Option (R c × W)} {n : ℕ} {p q : Prog R α}
    {w w' : W} (hok : holdsAlong ok answer n p w = true)
    (h : Reaches (Answers answer) (p, w) (q, w')) :
  ok q w' = true
  := by
  induction n generalizing p w with
  | zero =>
      cases p with
      | ret a =>
          obtain ⟨rfl, rfl⟩ : q = .ret a ∧ w' = w := by
            rcases Relation.ReflTransGen.cases_head h with heq | ⟨x, hx, -⟩
            · cases heq
              exact ⟨rfl, rfl⟩
            · cases hx
          exact hok
      | call c k => cases hok
      | loop body s k => cases hok
  | succ n ih =>
      rcases Relation.ReflTransGen.cases_head h with heq | ⟨x, hx, hrest⟩
      · cases heq
        cases q with
        | ret a => exact hok
        | call c k => exact (Bool.and_eq_true_iff.mp hok).1
        | loop body s k => exact (Bool.and_eq_true_iff.mp hok).1
      · cases hx with
        | @call c k r _ w₁ hanswer =>
            have hnext := (Bool.and_eq_true_iff.mp hok).2
            rw [show answer w c = some (r, w₁) from hanswer] at hnext
            exact ih hnext hrest
        | loop => exact ih (Bool.and_eq_true_iff.mp hok).2 hrest

/-- What a safe program comes to is safe. -/
theorem Visits.safe
    {φ : W → C → Prop} {p : Prog R α} {q : Prog R β} {Q : α → W → Prop} {w w' : W}
    (hv : Visits act p w q w') (h : Safe act φ p Q w) :
  ∃ Q', Safe act φ q Q' w'
  := by
  obtain ⟨k, hk⟩ := hv
  exact ⟨_, Safe.of_bind (h.reaches hk)⟩

end Prog

/-- Procedures that are watched, and the conditions under which they are to be started. -/
structure Watch (B : Type) {X : Type} (Reply : X → Type) (ε W : Type) where
  Index : Type
  Result : Index → Type
  step : (i : Index) → Proc B Reply ε (Result i)
  cond : Index → W → Prop

/-- Nothing is watched. -/
def Watch.nothing (B : Type) {X : Type} (Reply : X → Type) (ε W : Type) : Watch B Reply ε W where
  Index := Empty
  Result i := i.elim
  step i := i.elim
  cond i := i.elim

namespace Proc

variable {B X : Type} {Reply : X → Type} {ε W : Type} {α β S A : Type}

/-- Every watched procedure that a run comes to is started where its condition holds. -/
def Meets (m : Watch B Reply ε W) (act : W → (c : Act B X) → Answer Reply c → W → Prop)
    (p : Proc B Reply ε α) (w : W) : Prop :=
  ∀ i w', Prog.Visits act p.run w (m.step i).run w' → m.cond i w'

/-- When the procedure, started where `P` holds, comes to an end in a run that meets the
conditions of `m`, then its result satisfies `Q` and its error satisfies `E`. -/
def Triple (m : Watch B Reply ε W) (act : W → (c : Act B X) → Answer Reply c → W → Prop)
    (P : W → Prop) (p : Proc B Reply ε α) (Q : α → W → Prop) (E : ε → W → Prop) : Prop :=
  ∀ w, P w → Meets m act p w → ∀ r w', Prog.Ends act p.run w r w' → Post Q E r w'

variable {m : Watch B Reply ε W} {act : W → (c : Act B X) → Answer Reply c → W → Prop}
  {P : W → Prop} {E : ε → W → Prop}

theorem Meets.bind_left
    {p : Proc B Reply ε α} {f : α → Proc B Reply ε β} {w : W} (h : Meets m act (p >>= f) w) :
  Meets m act p w
  := by
  intro i w' hv
  exact h i w' (hv.bind_left _)

theorem Meets.bind_right
    {p : Proc B Reply ε α} {f : α → Proc B Reply ε β} {w w₁ : W} {a : α}
    (h : Meets m act (p >>= f) w) (hp : Prog.Ends act p.run w (.ok a) w₁) :
  Meets m act (f a) w₁
  := by
  intro i w' hv
  exact h i w' (Prog.Visits.bind_right hp hv)

namespace Triple

theorem consequence
    {p : Proc B Reply ε α} {P' : W → Prop} {Q Q' : α → W → Prop} {E' : ε → W → Prop}
    (h : Triple m act P p Q E) (hP : ∀ w, P' w → P w) (hQ : ∀ a w, Q a w → Q' a w)
    (hE : ∀ e w, E e w → E' e w) :
  Triple m act P' p Q' E'
  := by
  intro w hw hmeets r w' hr
  have hpost := h w (hP w hw) hmeets r w' hr
  cases r with
  | ok a => exact hQ a w' hpost
  | error e => exact hE e w' hpost

theorem pure
    {Q : α → W → Prop} {a : α} (h : ∀ w, P w → Q a w) :
  Triple m act P (Pure.pure a : Proc B Reply ε α) Q E
  := by
  intro w hw _ r w' hr
  obtain ⟨rfl, rfl⟩ := Prog.Ends.of_ret hr
  exact h w' hw

theorem throw
    {Q : α → W → Prop} {e : ε} (h : ∀ w, P w → E e w) :
  Triple m act P (MonadExcept.throw e : Proc B Reply ε α) Q E
  := by
  intro w hw _ r w' hr
  obtain ⟨rfl, rfl⟩ := Prog.Ends.of_ret hr
  exact h w' hw

theorem bind
    {p : Proc B Reply ε α} {f : α → Proc B Reply ε β} {Q : α → W → Prop} {Q' : β → W → Prop}
    (hp : Triple m act P p Q E) (hf : ∀ a, Triple m act (Q a) (f a) Q' E) :
  Triple m act P (p >>= f) Q' E
  := by
  intro w hw hmeets r w' hr
  obtain ⟨x, w₁, hx, hend⟩ := Prog.Ends.bind_inv hr
  have hpost := hp w hw hmeets.bind_left x w₁ hx
  cases x with
  | ok a => exact hf a w₁ hpost (hmeets.bind_right hx) r w' hend
  | error e =>
      obtain ⟨rfl, rfl⟩ := Prog.Ends.of_ret hend
      exact hpost

/-- What is known of the state where the procedure starts. -/
theorem fixed
    {p : Proc B Reply ε α} {Q : α → W → Prop}
    (h : ∀ w, P w → Triple m act (· = w) p Q E) :
  Triple m act P p Q E
  := by
  intro w hw
  exact h w hw w rfl

/-- What the procedure returns from a known state. -/
theorem returning
    {p : Proc B Reply ε α} {Q : α → W → Prop} {w₀ : W} (h : Triple m act (· = w₀) p Q E) :
  Triple m act (· = w₀) p (fun a w => Prog.Ends act p.run w₀ (.ok a) w ∧ Q a w) E
  := by
  rintro w rfl hmeets r w' hr
  have hpost := h w rfl hmeets r w' hr
  cases r with
  | ok a => exact ⟨hr, hpost⟩
  | error e => exact hpost

/-- Where nothing is watched, a triple speaks of all runs. -/
theorem ends
    {p : Proc B Reply ε α} {Q : α → W → Prop}
    (h : Triple (Watch.nothing B Reply ε W) act P p Q E) {w w' : W} {r : Except ε α} (hw : P w)
    (hr : Prog.Ends act p.run w r w') :
  Post Q E r w'
  := h w hw (fun i => i.elim) r w' hr

theorem host
    {x : X} {Q : Reply x → W → Prop}
    (h : ∀ w r w', P w → act w (.host x) r w' → Q r w') :
  Triple m act P (host x : Proc B Reply ε (Reply x)) Q E
  := by
  intro w hw _ r w' hr
  have hsafe : Safe act (fun _ _ => True) (Proc.host x : Proc B Reply ε (Reply x)) Q E w :=
    safe_host trivial fun r w' hact => h w r w' hw hact
  exact Prog.Safe.ends hsafe hr

theorem forEach
    {f : S → A → Proc B Reply ε S} {J : S → W → Prop}
    (h : ∀ s a, Triple m act (J s) (f s a) J E) (s : S) (as : List A) :
  Triple m act (J s) (forEach f s as) J E
  := by
  induction as generalizing s with
  | nil => exact pure fun _ hw => hw
  | cons a as ih =>
      apply (h s a).bind
      intro s'
      exact ih s'

end Triple

/-! ### Commands that are issued -/

section Issued

variable {H : Type} {answer : H → (x : X) → Option (Reply x × H)} {closed : Bool}
  {φ : Endpoint H B → Act B X → Prop} {w : Endpoint H B}

/-- Every command that the procedure issues satisfies `φ`. -/
def IssuesOnly (answer : H → (x : X) → Option (Reply x × H)) (closed : Bool)
    (φ : Endpoint H B → Act B X → Prop) (p : Proc B Reply ε α) (w : Endpoint H B) : Prop :=
  ∃ Q, Prog.Safe (Prog.Answers (Endpoint.answer answer closed)) φ p.run Q w

theorem IssuesOnly.bind_left
    {p : Proc B Reply ε α} {f : α → Proc B Reply ε β}
    (h : IssuesOnly answer closed φ (p >>= f) w) :
  IssuesOnly answer closed φ p w
  := by
  obtain ⟨Q, hsafe⟩ := h
  exact ⟨_, Prog.Safe.of_bind hsafe⟩

/-- After a command that satisfies `φ`, the procedure goes on with what it is answered. -/
theorem IssuesOnly.host_bind
    {x : X} {f : Reply x → Proc B Reply ε β}
    (h : IssuesOnly answer closed φ (host x >>= f) w) :
  φ w (.host x) ∧ ∀ r d, answer w.host x = some (r, d) →
    IssuesOnly answer closed φ (f r) { w with host := d }
  := by
  obtain ⟨Q, hsafe⟩ := h
  refine ⟨hsafe.1, fun r d hanswer => ⟨Q, hsafe.2 r _ ?_⟩⟩
  simp only [Prog.Answers, Endpoint.answer, hanswer]

end Issued

/-! ### Loops over a list -/

/-- Every step of a loop over a list that a run comes to is started where the condition holds,
which may depend on the elements that have been dealt with before. -/
def EachMeets (act : W → (c : Act B X) → Answer Reply c → W → Prop) (f : S → A → Proc B Reply ε S)
    (cond : List A → A → W → Prop) (done : List A) (s : S) : List A → W → Prop
  | [], _ => True
  | a :: rest, w =>
    cond done a w ∧ ∀ s' w', Prog.Ends act (f s a).run w (.ok s') w' →
      EachMeets act f cond (done ++ [a]) s' rest w'

/-- What each step of a loop keeps when it is started where the condition holds, all of them
keep. -/
theorem forEach_keeps
    {f : S → A → Proc B Reply ε S} {cond : List A → A → W → Prop} {J : List A → S → W → Prop}
    (h : ∀ done s a w, J done s w → cond done a w → ∀ r w', Prog.Ends act (f s a).run w r w' →
      Post (J (done ++ [a])) E r w')
    {done : List A} {s : S} {as : List A} {w : W} (hmeets : EachMeets act f cond done s as w)
    (hw : J done s w) {r : Except ε S} {w' : W} (hr : Prog.Ends act (forEach f s as).run w r w') :
  Post (J (done ++ as)) E r w'
  := by
  induction as generalizing done s w with
  | nil =>
      obtain ⟨rfl, rfl⟩ := Prog.Ends.of_ret hr
      rw [List.append_nil]
      exact hw
  | cons a rest ih =>
      obtain ⟨hcond, hrest⟩ := hmeets
      obtain ⟨x, w₁, hx, hend⟩ := Prog.Ends.bind_inv hr
      have hpost := h done s a w hw hcond x w₁ hx
      cases x with
      | ok s' =>
          have hkept := ih (hrest s' w₁ hx) hpost hend
          rw [List.append_assoc] at hkept
          exact hkept
      | error e =>
          obtain ⟨rfl, rfl⟩ := Prog.Ends.of_ret hend
          exact hpost

/-- A loop over a list that is started with `s₀` in the state `w` comes to the element `a` with `s`
in the state `w'`. -/
def ArrivesAt (act : W → (c : Act B X) → Answer Reply c → W → Prop) (f : S → A → Proc B Reply ε S)
    (s₀ : S) (as : List A) (w : W) (s : S) (a : A) (w' : W) : Prop :=
  ∃ done rest, as = done ++ a :: rest ∧ Prog.Ends act (forEach f s₀ done).run w (.ok s) w'

/-- What each step that a loop comes to keeps, the loop keeps. -/
theorem forEach_arrives
    {f : S → A → Proc B Reply ε S} {J : W → Prop} {E : ε → W → Prop} {s₀ : S} {as : List A} {w : W}
    (h : ∀ s a w₁, ArrivesAt act f s₀ as w s a w₁ → J w₁ →
      ∀ r w₂, Prog.Ends act (f s a).run w₁ r w₂ → Post (fun _ => J) E r w₂)
    (hw : J w) {r : Except ε S} {w' : W} (hr : Prog.Ends act (forEach f s₀ as).run w r w') :
  Post (fun _ => J) E r w'
  := by
  suffices hrest : ∀ rest done s w₁, as = done ++ rest →
      Prog.Ends act (forEach f s₀ done).run w (.ok s) w₁ → J w₁ →
        Prog.Ends act (forEach f s rest).run w₁ r w' → Post (fun _ => J) E r w' by
    exact hrest as [] s₀ w rfl (Prog.Ends.ret _ w) hw hr
  intro rest
  induction rest with
  | nil =>
      intro done s w₁ _ _ hw₁ hend
      obtain ⟨rfl, rfl⟩ := Prog.Ends.of_ret hend
      exact hw₁
  | cons a rest ih =>
      intro done s w₁ has hdone hw₁ hend
      obtain ⟨x, w₂, hx, hend⟩ := Prog.Ends.bind_inv hend
      have hpost := h s a w₁ ⟨done, rest, has, hdone⟩ hw₁ x w₂ hx
      cases x with
      | ok s' =>
          apply ih (done ++ [a]) s' w₂ (by rw [has, List.append_cons]) ?_ hpost hend
          rw [forEach_append]
          exact Prog.Ends.bind hdone (Prog.Ends.bind hx (Prog.Ends.ret _ w₂))
      | error e =>
          obtain ⟨rfl, rfl⟩ := Prog.Ends.of_ret hend
          exact hpost

end Proc
