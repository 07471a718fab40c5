import RsyncRs.Program.Frame

/-!
# What a procedure asks its host

A procedure that asks its host harmless questions only, and reads and writes for the rest, leaves
its host in a state as it was.
-/

variable {B X H : Type} {Reply : X → Type}

/-- All that the program asks its host satisfies `φ`. -/
def Prog.Asks (φ : X → Prop) : {α : Type} → Prog (Answer (B := B) Reply) α → Prop
  | _, .ret _ => True
  | _, .call (.host x) k => φ x ∧ ∀ r, Prog.Asks φ (k r)
  | _, .call _ k => ∀ r, Prog.Asks φ (k r)
  | _, .loop body _ k => (∀ s, Prog.Asks φ (body s)) ∧ ∀ a, Prog.Asks φ (k a)

namespace Prog

variable {φ : X → Prop} {α β : Type}

theorem Asks.bind
    {p : Prog (Answer (B := B) Reply) α} {f : α → Prog (Answer (B := B) Reply) β}
    (hp : Asks φ p) (hf : ∀ a, Asks φ (f a)) :
  Asks φ (p >>= f)
  := by
  induction p with
  | ret a => exact hf a
  | call c k ih =>
      cases c with
      | host x => exact And.intro hp.1 fun r => ih r (hp.2 r) hf
      | read => exact fun r => ih r (hp r) hf
      | write bs => exact fun r => ih r (hp r) hf
      | flush => exact fun r => ih r (hp r) hf
  | loop body s k _ ihk => exact And.intro hp.1 fun a => ihk a (hp.2 a) hf

theorem OnlyReads.asks
    {p : Prog (Answer (B := B) Reply) α} (hp : OnlyReads p) :
  Asks φ p
  := by
  induction p with
  | ret a => trivial
  | call c k ih =>
      cases c with
      | read => exact fun r => ih r (hp r)
      | host x => cases hp
      | write bs => cases hp
      | flush => cases hp
  | loop body s k => cases hp

theorem OnlyWrites.asks
    {p : Prog (Answer (B := B) Reply) α} (hp : OnlyWrites p) :
  Asks φ p
  := by
  induction p with
  | ret a => trivial
  | call c k ih =>
      cases c with
      | write bs => exact fun r => ih r (hp r)
      | host x => cases hp
      | read => cases hp
      | flush => cases hp
  | loop body s k => cases hp

theorem Asks.mono
    {ψ : X → Prop} {p : Prog (Answer (B := B) Reply) α} (hp : Asks φ p) (h : ∀ x, φ x → ψ x) :
  Asks ψ p
  := by
  induction p with
  | ret a => trivial
  | call c k ih =>
      cases c with
      | host x => exact And.intro (h x hp.1) fun r => ih r (hp.2 r)
      | read => exact fun r => ih r (hp r)
      | write bs => exact fun r => ih r (hp r)
      | flush => exact fun r => ih r (hp r)
  | loop body s k ihb ihk => exact And.intro (fun s => ihb s (hp.1 s)) fun a => ihk a (hp.2 a)

/-- Whatever it is answered, the program asks nothing else. -/
theorem Asks.only
    {W : Type} {act : W → (c : Act B X) → Answer Reply c → W → Prop}
    {p : Prog (Answer (B := B) Reply) α} (hp : Asks φ p) (w : W) :
  Safe act (fun _ c => ∀ x, c = .host x → φ x) p (fun _ _ => True) w
  := by
  induction p generalizing w with
  | ret a => trivial
  | call c k ih =>
      cases c with
      | host x =>
          refine And.intro ?_ fun r w' _ => ih r (hp.2 r) w'
          rintro _ ⟨⟩
          exact hp.1
      | read => exact And.intro (by rintro _ ⟨⟩) fun r w' _ => ih r (hp r) w'
      | write bs => exact And.intro (by rintro _ ⟨⟩) fun r w' _ => ih r (hp r) w'
      | flush => exact And.intro (by rintro _ ⟨⟩) fun r w' _ => ih r (hp r) w'
  | loop body s k ihb ihk =>
      refine ⟨fun _ _ => True, trivial, fun s w _ => ?_⟩
      apply (ihb s (hp.1 s) w).mono
      intro y w _
      cases y with
      | inl s => trivial
      | inr a => exact ihk a (hp.2 a) w

/-- What harmless questions keep is kept by the program. -/
theorem Asks.safe
    {answer : H → (x : X) → Option (Reply x × H)} {closed : Bool} {J : H → Prop}
    (hJ : ∀ x, φ x → ∀ h r h', J h → answer h x = some (r, h') → J h')
    {p : Prog (Answer (B := B) Reply) α} (hp : Asks φ p) {w : Endpoint H B} (hw : J w.host)
    {Q : α → Endpoint H B → Prop} (hQ : ∀ a w, J w.host → Q a w) :
  Safe (Answers (Endpoint.answer answer closed)) (fun _ _ => True) p Q w
  := by
  induction p generalizing w with
  | ret a => exact hQ a w hw
  | call c k ih =>
      refine And.intro trivial fun r w' hr => ?_
      cases c with
      | host x =>
          simp only [Answers, Endpoint.answer] at hr
          split at hr
          · next hanswer =>
            cases hr
            exact ih r (hp.2 r) (hJ x hp.1 _ _ _ hw hanswer) hQ
          · cases hr
      | read =>
          apply ih r (hp r) ?_ hQ
          rw [(Endpoint.answer_read hr).1]
          exact hw
      | write bs =>
          cases hr
          apply ih true (hp true) ?_ hQ
          exact hw
      | flush =>
          cases hr
          apply ih true (hp true) ?_ hQ
          exact hw
  | loop body s k ihb ihk =>
      refine ⟨fun _ w => J w.host, hw, fun s w hw => ?_⟩
      apply ihb s (hp.1 s) hw
      intro x w hw
      cases x with
      | inl s => exact hw
      | inr a => exact ihk a (hp.2 a) hw hQ

end Prog

namespace Proc

variable {φ : X → Prop} {ε α β S A : Type}

/-- All that the procedure asks its host satisfies `φ`. -/
def Asks (φ : X → Prop) (p : Proc B Reply ε α) : Prop :=
  Prog.Asks φ p.run

theorem asks_pure
    (a : α) :
  Asks φ (pure a : Proc B Reply ε α)
  := trivial

theorem asks_throw
    (e : ε) :
  Asks φ (throw e : Proc B Reply ε α)
  := trivial

theorem asks_host
    {x : X} (hx : φ x) :
  Asks φ (host x : Proc B Reply ε (Reply x))
  := And.intro hx fun _ => trivial

theorem asks_flush
    (e : ε) :
  Asks φ (flush e : Proc B Reply ε Unit)
  := fun _ => trivial

theorem OnlyReads.asks
    {p : Proc B Reply ε α} (hp : OnlyReads p) :
  Asks φ p
  := Prog.OnlyReads.asks hp

theorem OnlyWrites.asks
    {p : Proc B Reply ε α} (hp : OnlyWrites p) :
  Asks φ p
  := Prog.OnlyWrites.asks hp

theorem Asks.bind
    {p : Proc B Reply ε α} {f : α → Proc B Reply ε β} (hp : Asks φ p) (hf : ∀ a, Asks φ (f a)) :
  Asks φ (p >>= f)
  := by
  apply Prog.Asks.bind hp
  intro r
  cases r with
  | ok a => exact hf a
  | error e => trivial

theorem Asks.attempt
    {p : Proc B Reply ε α} (hp : Asks φ p) :
  Asks φ (attempt p)
  := Prog.Asks.bind hp fun _ => trivial

theorem asks_loop
    {body : S → Proc B Reply ε (S ⊕ A)} (hbody : ∀ s, Asks φ (body s)) (s : S) :
  Asks φ (loop body s)
  := And.intro (fun s => Prog.Asks.bind (hbody s) fun _ => trivial) fun _ => trivial

theorem asks_forEach
    {f : S → A → Proc B Reply ε S} {as : List A} (hf : ∀ s, ∀ a ∈ as, Asks φ (f s a)) (s : S) :
  Asks φ (forEach f s as)
  := by
  induction as generalizing s with
  | nil => trivial
  | cons a as ih =>
      apply (hf s a List.mem_cons_self).bind
      exact ih fun s b hb => hf s b (List.mem_cons_of_mem a hb)

theorem Asks.mono
    {ψ : X → Prop} {p : Proc B Reply ε α} (hp : Asks φ p) (h : ∀ x, φ x → ψ x) :
  Asks ψ p
  := Prog.Asks.mono hp h

theorem Asks.only
    {W : Type} {act : W → (c : Act B X) → Answer Reply c → W → Prop} {p : Proc B Reply ε α}
    (hp : Asks φ p) (w : W) :
  Safe act (fun _ c => ∀ x, c = .host x → φ x) p (fun _ _ => True) (fun _ _ => True) w
  := by
  apply Prog.Safe.mono (Prog.Asks.only hp w)
  intro r w _
  cases r with
  | ok a => trivial
  | error e => trivial

theorem Asks.issues
    {W : Type} {act : W → (c : Act B X) → Answer Reply c → W → Prop} {p : Proc B Reply ε α}
    (hp : Asks φ p) {w w' : W} {x : X} (h : Prog.Issues act p.run w (.host x) w') :
  φ x
  := (hp.only w).issues h x rfl

end Proc
