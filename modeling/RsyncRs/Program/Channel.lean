import RsyncRs.Program.Run

/-!
# Procedures over a byte channel

A procedure reads single symbols from its input, writes to a buffer, flushes the buffer and
issues commands to its host. It returns a result or fails with an error.

A run of a procedure at an endpoint is a run of its program in the environment where reads
are answered from the symbols still to come, written symbols stay in the buffer until the
next flush, and the host answers as it may.
-/

variable {B X : Type} {Reply : X → Type}

/-- The commands of a procedure: those of its channel and those of its host. -/
inductive Act (B X : Type) where
  /-- Read one symbol. -/
  | read
  /-- Put symbols into the output buffer. -/
  | write (bs : List B)
  /-- Send what is in the output buffer. -/
  | flush
  /-- A command to the host. -/
  | host (x : X)

/-- A read is answered by a symbol, or by nothing at the end of the input; a write and a
flush by whether they succeeded. -/
def Answer (Reply : X → Type) : Act B X → Type
  | .read => Option B
  | .write _ => Bool
  | .flush => Bool
  | .host x => Reply x

/-- Procedures with commands to the host answered in `Reply`, which fail with errors in `ε`
and return in `α`. -/
abbrev Proc (B : Type) {X : Type} (Reply : X → Type) (ε α : Type) : Type 1 :=
  ExceptT ε (Prog (Answer (B := B) Reply)) α

namespace Proc

variable {ε α β S A : Type}

/-- The program that returns a result for success and an error for failure. -/
abbrev ofProg (p : Prog (Answer (B := B) Reply) (Except ε α)) : Proc B Reply ε α :=
  ExceptT.mk p

/-- Read one symbol, failing with `e` at the end of the input. -/
def read (e : ε) : Proc B Reply ε B :=
  ofProg do
    let r : Option B ← Prog.perform (R := Answer Reply) Act.read
    match r with
    | some b => pure (.ok b)
    | none => pure (.error e)

/-- Read `n` symbols, failing with `e` at the end of the input. -/
def readExact (e : ε) : ℕ → Proc B Reply ε (List B)
  | 0 => pure []
  | n + 1 => do
    let b ← read e
    let bs ← readExact e n
    pure (b :: bs)

/-- Write `bs`, failing with `e` when the output is closed. -/
def write (e : ε) (bs : List B) : Proc B Reply ε Unit :=
  ofProg do
    let r : Bool ← Prog.perform (R := Answer Reply) (Act.write bs)
    pure (if r then .ok () else .error e)

/-- Flush the output buffer, failing with `e` when the output is closed. -/
def flush (e : ε) : Proc B Reply ε Unit :=
  ofProg do
    let r : Bool ← Prog.perform (R := Answer Reply) Act.flush
    pure (if r then .ok () else .error e)

/-- Issue the command `x` to the host. -/
def host (x : X) : Proc B Reply ε (Reply x) :=
  ofProg do
    let r : Reply x ← Prog.perform (R := Answer Reply) (Act.host x)
    pure (.ok r)

/-- Run a procedure and return how it ended. -/
def attempt (p : Proc B Reply ε α) : Proc B Reply ε (Except ε α) :=
  ofProg do
    let r ← p.run
    pure (.ok r)

/-- What a loop does after one round: it fails, goes round again, or returns. -/
def next : Except ε (S ⊕ A) → S ⊕ Except ε A
  | .ok (.inl s) => .inl s
  | .ok (.inr a) => .inr (.ok a)
  | .error e => .inr (.error e)

/-- One round of a loop as a program. -/
def round (body : S → Proc B Reply ε (S ⊕ A)) (s : S) :
    Prog (Answer (B := B) Reply) (S ⊕ Except ε A) :=
  (body s).run >>= fun r => pure (next r)

/-- Run `body` from `s` until it returns on the right or fails. -/
def loop (body : S → Proc B Reply ε (S ⊕ A)) (s : S) : Proc B Reply ε A :=
  ofProg (Prog.iterate (round body) s)

/-- Run `f` on each element of the list in turn. -/
def forEach (f : S → A → Proc B Reply ε S) : S → List A → Proc B Reply ε S
  | s, [] => pure s
  | s, a :: as => do
    let s ← f s a
    forEach f s as

/-! ### Safety of procedures -/

variable {W : Type} {act : W → (c : Act B X) → Answer Reply c → W → Prop}
  {φ : W → Act B X → Prop}

/-- The postcondition with `Q` for results and `E` for errors. -/
def Post (Q : α → W → Prop) (E : ε → W → Prop) : Except ε α → W → Prop
  | .ok a, w => Q a w
  | .error e, w => E e w

/-- Every command issued by the procedure from `w` satisfies `φ`, its result satisfies `Q`,
and its error satisfies `E`. -/
def Safe (act : W → (c : Act B X) → Answer Reply c → W → Prop) (φ : W → Act B X → Prop)
    (p : Proc B Reply ε α) (Q : α → W → Prop) (E : ε → W → Prop) (w : W) : Prop :=
  Prog.Safe act φ p.run (Post Q E) w

theorem safe_pure
    {a : α} {Q : α → W → Prop} {E : ε → W → Prop} {w : W} (h : Q a w) :
  Safe act φ (pure a : Proc B Reply ε α) Q E w
  := h

theorem Safe.mono
    {p : Proc B Reply ε α} {P Q : α → W → Prop} {D E : ε → W → Prop} {w : W}
    (h : Safe act φ p P D w) (hQ : ∀ a w, P a w → Q a w) (hE : ∀ e w, D e w → E e w) :
  Safe act φ p Q E w
  := by
  apply Prog.Safe.mono h
  intro r w hr
  cases r with
  | ok a => apply hQ a w hr
  | error e => apply hE e w hr

theorem Safe.bind
    {p : Proc B Reply ε α} {f : α → Proc B Reply ε β} {Q : β → W → Prop} {E : ε → W → Prop}
    {w : W} (h : Safe act φ p (fun a w => Safe act φ (f a) Q E w) E w) :
  Safe act φ (p >>= f) Q E w
  := by
  apply Prog.Safe.bind
  apply Prog.Safe.mono h
  intro r w hr
  cases r with
  | ok a => apply hr
  | error e => apply hr

theorem safe_read
    {e : ε} {Q : B → W → Prop} {E : ε → W → Prop} {w : W} (hφ : φ w .read)
    (hQ : ∀ b w', act w .read (some b) w' → Q b w') (hE : ∀ w', act w .read none w' → E e w') :
  Safe act φ (read e) Q E w
  := by
  apply And.intro hφ
  intro r w' hr
  cases r with
  | none => apply hE w' hr
  | some b => apply hQ b w' hr

theorem safe_host
    {x : X} {Q : Reply x → W → Prop} {E : ε → W → Prop} {w : W}
    (hφ : φ w (.host x)) (hQ : ∀ r w', act w (.host x) r w' → Q r w') :
  Safe act φ (host x) Q E w
  := by
  apply And.intro hφ
  intro r w' hr
  apply hQ r w' hr

/-- A loop is safe when an invariant `J` of its states is kept by its body. -/
theorem safe_loop
    {body : S → Proc B Reply ε (S ⊕ A)} {s : S} {Q : A → W → Prop} {E : ε → W → Prop} {w : W}
    (J : S → W → Prop) (hs : J s w)
    (hJ : ∀ s w, J s w → Safe act φ (body s) (fun x w => Sum.elim (J · w) (Q · w) x) E w) :
  Safe act φ (loop body s) Q E w
  := by
  apply Prog.Safe.iterate J hs
  intro s w hs
  apply Prog.Safe.bind
  apply Prog.Safe.mono (hJ s w hs)
  intro r w hr
  rcases r with e | s | a
  · apply hr
  · apply hr
  · apply hr

/-- A traversal is safe when an invariant `J` of the state and the elements still to come is
kept by each of its steps. -/
theorem safe_forEach
    {f : S → A → Proc B Reply ε S} {s : S} {as : List A} {Q : S → W → Prop}
    {E : ε → W → Prop} {w : W} (J : S → List A → W → Prop) (hs : J s as w)
    (hJ : ∀ s a as w, J s (a :: as) w → Safe act φ (f s a) (fun s w => J s as w) E w)
    (hQ : ∀ s w, J s [] w → Q s w) :
  Safe act φ (forEach f s as) Q E w
  := by
  induction as generalizing s w with
  | nil => apply safe_pure (hQ s w hs)
  | cons a as ih =>
      apply Safe.bind
      apply (hJ s a as w hs).mono
      · intro s w hs
        apply ih hs
      · intro e w he
        apply he

end Proc

/-! ### Endpoints -/

/-- A procedure's side of its channel: the state of its host, the symbols still to come, the
output buffer, and what has been sent. -/
structure Endpoint (H B : Type) where
  /-- The state of the host. -/
  host : H
  /-- The symbols still to come. -/
  input : List B
  /-- What has been written and not yet sent. -/
  buffer : List B
  /-- What has been sent. -/
  sent : List B
deriving DecidableEq, Repr

/-- The environment of an endpoint whose host answers by `answer`. When the input is closed a
read at its end is answered by nothing, otherwise it waits. -/
def Endpoint.answer {H : Type} (answer : H → (x : X) → Option (Reply x × H)) (closed : Bool)
    (w : Endpoint H B) : (c : Act B X) → Option (Answer Reply c × Endpoint H B)
  | .read =>
    match w.input with
    | b :: bs => some (some b, { w with input := bs })
    | [] => if closed then some (none, w) else none
  | .write bs => some (true, { w with buffer := w.buffer ++ bs })
  | .flush => some (true, { w with buffer := [], sent := w.sent ++ w.buffer })
  | .host x =>
    match answer w.host x with
    | some (r, h) => some (r, { w with host := h })
    | none => none

namespace Proc

variable {H ε α β S A : Type} {answer : H → (x : X) → Option (Reply x × H)} {closed : Bool}

/-- The procedure, started at the endpoint `w`, returns `a` and leaves the endpoint `w'`. -/
def Returns (answer : H → (x : X) → Option (Reply x × H)) (closed : Bool)
    (p : Proc B Reply ε α) (w : Endpoint H B) (a : α) (w' : Endpoint H B) : Prop :=
  Prog.Ends (Prog.Answers (Endpoint.answer answer closed)) p.run w (.ok a) w'

/-- The procedure, started at the endpoint `w`, fails with `e` and leaves the endpoint
`w'`. -/
def Fails (answer : H → (x : X) → Option (Reply x × H)) (closed : Bool)
    (p : Proc B Reply ε α) (w : Endpoint H B) (e : ε) (w' : Endpoint H B) : Prop :=
  Prog.Ends (Prog.Answers (Endpoint.answer answer closed)) p.run w (.error e) w'

theorem returns_pure
    (a : α) (w : Endpoint H B) :
  Returns answer closed (pure a : Proc B Reply ε α) w a w
  := Prog.Ends.ret _ w

/-- What a pure computation returns. -/
theorem Returns.pure_inv
    {a b : α} {w w' : Endpoint H B} (h : Returns answer closed (pure a : Proc B Reply ε α) w b w') :
  b = a ∧ w' = w
  := by
  obtain ⟨he, hw⟩ := Prog.Ends.of_ret h
  exact ⟨Except.ok.inj he, hw⟩

theorem Returns.bind
    {p : Proc B Reply ε α} {f : α → Proc B Reply ε β} {w w₁ w₂ : Endpoint H B} {a : α} {b : β}
    (hp : Returns answer closed p w a w₁) (hf : Returns answer closed (f a) w₁ b w₂) :
  Returns answer closed (p >>= f) w b w₂
  := Prog.Ends.bind hp hf

theorem Returns.bind_fails
    {p : Proc B Reply ε α} {f : α → Proc B Reply ε β} {w w₁ w₂ : Endpoint H B} {a : α} {e : ε}
    (hp : Returns answer closed p w a w₁) (hf : Fails answer closed (f a) w₁ e w₂) :
  Fails answer closed (p >>= f) w e w₂
  := Prog.Ends.bind hp hf

theorem Fails.bind
    {p : Proc B Reply ε α} {f : α → Proc B Reply ε β} {w w₁ : Endpoint H B} {e : ε}
    (hp : Fails answer closed p w e w₁) :
  Fails answer closed (p >>= f) w e w₁
  := Prog.Ends.bind hp (Prog.Ends.ret _ w₁)

theorem returns_read
    (e : ε) (b : B) {w : Endpoint H B} {bs : List B} (h : w.input = b :: bs) :
  Returns answer closed (read e : Proc B Reply ε B) w b { w with input := bs }
  := by
  have hr : Endpoint.answer answer closed w .read = some (some b, { w with input := bs }) := by
    simp only [Endpoint.answer, h]
    rfl
  apply Prog.Ends.bind (Prog.Ends.perform hr)
  apply Prog.Ends.ret

theorem fails_read
    (e : ε) {w : Endpoint H B} (h : w.input = []) :
  Fails answer true (read e : Proc B Reply ε B) w e w
  := by
  have hr : Endpoint.answer answer true w .read = some (none, w) := by
    simp only [Endpoint.answer, h, if_true]
    rfl
  apply Prog.Ends.bind (Prog.Ends.perform hr)
  apply Prog.Ends.ret

/-- Too few symbols are left in a closed input. -/
theorem fails_readExact
    (e : ε) {n : ℕ} {w : Endpoint H B} (h : w.input.length < n) :
  ∃ w', Fails answer true (readExact e n : Proc B Reply ε (List B)) w e w'
  := by
  induction n generalizing w with
  | zero => cases h
  | succ n ih =>
      cases hw : w.input with
      | nil =>
          use w
          apply (fails_read e hw).bind
      | cons b bs =>
          rw [hw, List.length_cons] at h
          obtain ⟨w', hf⟩ := ih (w := { w with input := bs }) (Nat.lt_of_succ_lt_succ h)
          use w'
          apply (returns_read e b hw).bind_fails hf.bind

theorem returns_write
    (e : ε) (bs : List B) (w : Endpoint H B) :
  Returns answer closed (write e bs : Proc B Reply ε Unit) w ()
    { w with buffer := w.buffer ++ bs }
  := by
  apply Prog.Ends.bind (Prog.Ends.perform (r := (true : Bool)) rfl)
  apply Prog.Ends.ret

theorem returns_flush
    (e : ε) (w : Endpoint H B) :
  Returns answer closed (flush e : Proc B Reply ε Unit) w ()
    { w with buffer := [], sent := w.sent ++ w.buffer }
  := by
  apply Prog.Ends.bind (Prog.Ends.perform (r := (true : Bool)) rfl)
  apply Prog.Ends.ret

theorem returns_host
    {x : X} {r : Reply x} {w : Endpoint H B} {h : H} (hx : answer w.host x = some (r, h)) :
  Returns answer closed (host x : Proc B Reply ε (Reply x)) w r { w with host := h }
  := by
  have hr : Endpoint.answer answer closed w (.host x) = some (r, { w with host := h }) := by
    simp only [Endpoint.answer, hx]
    rfl
  apply Prog.Ends.bind (Prog.Ends.perform hr)
  apply Prog.Ends.ret

theorem Returns.attempt
    {p : Proc B Reply ε α} {w w' : Endpoint H B} {a : α}
    (h : Returns answer closed p w a w') :
  Returns answer closed (attempt p) w (.ok a) w'
  := Prog.Ends.bind h (Prog.Ends.ret _ _)

/-- What a procedure fails with is returned when it is attempted. -/
theorem Fails.attempt
    {p : Proc B Reply ε α} {w w' : Endpoint H B} {e : ε} (h : Fails answer closed p w e w') :
  Returns answer closed (attempt p) w (.error e) w'
  := Prog.Ends.bind h (Prog.Ends.ret _ _)

theorem returns_loop_again
    {body : S → Proc B Reply ε (S ⊕ A)} {s s' : S} {w w₁ w₂ : Endpoint H B} {a : A}
    (h : Returns answer closed (body s) w (.inl s') w₁)
    (hl : Returns answer closed (loop body s') w₁ a w₂) :
  Returns answer closed (loop body s) w a w₂
  := Prog.Ends.loop_again (Prog.Ends.bind h (Prog.Ends.ret _ _)) hl

theorem returns_loop_done
    {body : S → Proc B Reply ε (S ⊕ A)} {s : S} {w w₁ : Endpoint H B} {a : A}
    (h : Returns answer closed (body s) w (.inr a) w₁) :
  Returns answer closed (loop body s) w a w₁
  := Prog.Ends.loop_done (Prog.Ends.bind h (Prog.Ends.ret _ _)) (Prog.Ends.ret _ _)

/-- An endpoint's procedure ends in one way. -/
theorem Returns.unique
    {p : Proc B Reply ε α} {w w₁ w₂ : Endpoint H B} {a b : α}
    (ha : Returns answer closed p w a w₁) (hb : Returns answer closed p w b w₂) :
  b = a ∧ w₂ = w₁
  := by
  obtain ⟨h, hw⟩ := Prog.Ends.unique (Prog.Answers.deterministic _) ha hb
  cases h
  apply And.intro rfl hw

/-- A procedure that fails does not return. -/
theorem Fails.not_returns
    {p : Proc B Reply ε α} {w w₁ w₂ : Endpoint H B} {a : α} {e : ε}
    (he : Fails answer closed p w e w₁) :
  ¬ Returns answer closed p w a w₂
  := by
  intro ha
  cases (Prog.Ends.unique (Prog.Answers.deterministic _) ha he).1

/-- What a command to the host returns is what the host answered. -/
theorem Returns.host_inv
    {x : X} {r : Reply x} {w w' : Endpoint H B}
    (h : Returns answer closed (host x : Proc B Reply ε (Reply x)) w r w') :
  ∃ h', answer w.host x = some (r, h') ∧ w' = { w with host := h' }
  := by
  obtain ⟨r', w₁, hr, hret⟩ := Prog.Ends.bind_inv h
  obtain ⟨he, rfl⟩ := Prog.Ends.of_ret hret
  cases he
  rcases Relation.ReflTransGen.cases_head hr with he | ⟨y, hy, hend⟩
  · cases he
  · cases hy with
    | call hact =>
        obtain ⟨rfl, rfl⟩ := Prog.Ends.of_ret hend
        simp only [Prog.Answers, Endpoint.answer] at hact
        split at hact
        · next r h' hans =>
          cases hact
          use h', hans
        · cases hact

/-- A run of two procedures that returns is a run of the first and one of the second. -/
theorem Returns.bind_inv
    {p : Proc B Reply ε α} {f : α → Proc B Reply ε β} {w w₂ : Endpoint H B} {b : β}
    (h : Returns answer closed (p >>= f) w b w₂) :
  ∃ a w₁, Returns answer closed p w a w₁ ∧ Returns answer closed (f a) w₁ b w₂
  := by
  obtain ⟨r, w₁, hr, hend⟩ := Prog.Ends.bind_inv h
  cases r with
  | ok a =>
      use a, w₁
      apply And.intro hr hend
  | error e => cases (Prog.Ends.of_ret hend).1

/-- A loop that returns has returned from its first round: it returned there, or it returned
from where that round left it. -/
theorem Returns.loop_inv
    {body : S → Proc B Reply ε (S ⊕ A)} {s : S} {w w₂ : Endpoint H B} {a : A}
    (h : Returns answer closed (loop body s) w a w₂) :
  ∃ x w₁, Returns answer closed (body s) w x w₁ ∧
    Sum.elim (fun s' => Returns answer closed (loop body s') w₁ a w₂)
      (fun a' => a' = a ∧ w₁ = w₂) x
  := by
  obtain ⟨x, w₁, hround, hend⟩ := Prog.Ends.loop_inv h
  obtain ⟨r, w', hr, hret⟩ := Prog.Ends.bind_inv hround
  obtain ⟨rfl, rfl⟩ := Prog.Ends.of_ret hret
  rcases r with e | s' | a'
  · cases (Prog.Ends.of_ret hend).1
  · use .inl s', w₁
    apply And.intro hr hend
  · use .inr a', w₁
    refine ⟨hr, ?_⟩
    obtain ⟨ha, rfl⟩ := Prog.Ends.of_ret hend
    cases ha
    apply And.intro rfl rfl

/-- The loop `body`, started in `x`, comes to the start of a round in `y`. -/
def Rounds (answer : H → (x : X) → Option (Reply x × H)) (closed : Bool)
    (body : S → Proc B Reply ε (S ⊕ A)) : S × Endpoint H B → S × Endpoint H B → Prop :=
  Prog.Rounds (Prog.Answers (Endpoint.answer answer closed)) (round body)

/-- A round that goes on is a run of the body. -/
theorem round_iff
    {body : S → Proc B Reply ε (S ⊕ A)} {x y : S × Endpoint H B} :
  Prog.Round (Prog.Answers (Endpoint.answer answer closed)) (round body) x y ↔
    Returns answer closed (body x.1) x.2 (.inl y.1) y.2
  := by
  constructor
  · intro h
    obtain ⟨r, w₁, hr, hret⟩ := Prog.Ends.bind_inv h
    obtain ⟨hr', rfl⟩ := Prog.Ends.of_ret hret
    rcases r with e | s | a
    · cases hr'
    · cases hr'
      apply hr
    · cases hr'
  · intro h
    exact Prog.Ends.bind (f := fun r => pure (next r)) h (Prog.Ends.ret _ _)

/-- A procedure that returns in one way is safe when what it returns satisfies the
postcondition. -/
theorem Returns.safe
    {p : Proc B Reply ε α} {w w' : Endpoint H B} {a : α} (h : Returns answer closed p w a w')
    {Q : α → Endpoint H B → Prop} {E : ε → Endpoint H B → Prop} (hQ : Q a w') :
  Safe (Prog.Answers (Endpoint.answer answer closed)) (fun _ _ => True) p Q E w
  := by
  apply Prog.safe_of_ends
  intro r w₁ hr
  obtain ⟨rfl, rfl⟩ := Prog.Ends.unique (Prog.Answers.deterministic _) h hr
  apply hQ

/-- When the first procedure returns `a`, the two return what the second one does on `a`. -/
theorem Returns.bind_iff
    {p : Proc B Reply ε α} {f : α → Proc B Reply ε β} {w w₁ w₂ : Endpoint H B} {a : α} {b : β}
    (hp : Returns answer closed p w a w₁) :
  Returns answer closed (p >>= f) w b w₂ ↔ Returns answer closed (f a) w₁ b w₂
  := by
  constructor
  · apply Prog.Ends.after (Prog.Answers.deterministic _) (Prog.Reaches.bind hp _)
  · apply hp.bind

/-- A loop whose round goes on returns what it returns from there. -/
theorem returns_loop_iff
    {body : S → Proc B Reply ε (S ⊕ A)} {s s' : S} {w w₁ w₂ : Endpoint H B} {a : A}
    (h : Returns answer closed (body s) w (.inl s') w₁) :
  Returns answer closed (loop body s) w a w₂ ↔ Returns answer closed (loop body s') w₁ a w₂
  := by
  constructor
  · have hr : Prog.Ends (Prog.Answers (Endpoint.answer answer closed)) (round body s) w
        (.inl s') w₁ := Prog.Ends.bind h (Prog.Ends.ret _ _)
    apply Prog.Ends.after (Prog.Answers.deterministic _)
    apply Relation.ReflTransGen.head Prog.Step.loop (Prog.Reaches.bind hr _)
  · apply returns_loop_again h

/-- A loop whose round fails does not return. -/
theorem Fails.not_returns_loop
    {body : S → Proc B Reply ε (S ⊕ A)} {s : S} {w w₁ w₂ : Endpoint H B} {a : A} {e : ε}
    (h : Fails answer closed (body s) w e w₁) :
  ¬ Returns answer closed (loop body s) w a w₂
  := by
  have hr : Prog.Ends (Prog.Answers (Endpoint.answer answer closed)) (round body s) w
      (.inr (.error e)) w₁ := Prog.Ends.bind h (Prog.Ends.ret _ _)
  apply Fails.not_returns (e := e)
  apply Prog.Ends.loop_done hr (Prog.Ends.ret _ _)

/-! ### Readers and writers -/

/-- The procedure consumes exactly `bs` and returns `a`, whatever follows. -/
def Reads (answer : H → (x : X) → Option (Reply x × H)) (p : Proc B Reply ε α) (bs : List B)
    (a : α) : Prop :=
  ∀ (closed : Bool) (w : Endpoint H B) (rest : List B), w.input = bs ++ rest →
    Returns answer closed p w a { w with input := rest }

/-- The procedure writes exactly `bs` and returns `a`. -/
def Writes (answer : H → (x : X) → Option (Reply x × H)) (p : Proc B Reply ε α) (bs : List B)
    (a : α) : Prop :=
  ∀ (closed : Bool) (w : Endpoint H B),
    Returns answer closed p w a { w with buffer := w.buffer ++ bs }

theorem reads_pure
    (a : α) :
  Reads answer (pure a : Proc B Reply ε α) [] a
  := by
  intro closed w rest h
  cases w
  cases h
  apply returns_pure

theorem reads_pure_of_eq
    {a b : α} (h : a = b) :
  Reads answer (pure a : Proc B Reply ε α) [] b
  := h ▸ reads_pure a

theorem Reads.bind
    {p : Proc B Reply ε α} {f : α → Proc B Reply ε β} {bs cs : List B} {a : α} {b : β}
    (hp : Reads answer p bs a) (hf : Reads answer (f a) cs b) :
  Reads answer (p >>= f) (bs ++ cs) b
  := by
  intro closed w rest h
  rw [List.append_assoc] at h
  apply Returns.bind (hp closed w (cs ++ rest) h)
  apply hf
  rfl

/-- A procedure that goes on without reading. -/
theorem Reads.bind_nil
    {p : Proc B Reply ε α} {f : α → Proc B Reply ε β} {bs : List B} {a : α} {b : β}
    (hp : Reads answer p bs a) (hf : Reads answer (f a) [] b) :
  Reads answer (p >>= f) bs b
  := by
  rw [← List.append_nil bs]
  apply hp.bind hf

/-- A procedure that goes on with a pure function of what it read. -/
theorem Reads.map
    {p : Proc B Reply ε α} {bs : List B} {a : α} (h : Reads answer p bs a) (f : α → β) :
  Reads answer (p >>= fun a => pure (f a)) bs (f a)
  := by
  intro closed w rest hw
  apply Returns.bind (h closed w rest hw)
  apply returns_pure

/-- A procedure that goes on with a pure function of what it read, whose value is known. -/
theorem Reads.map_eq
    {p : Proc B Reply ε α} {bs : List B} {a : α} (h : Reads answer p bs a) (f : α → β) {b : β}
    (hb : f a = b) :
  Reads answer (p >>= fun a => pure (f a)) bs b
  := hb ▸ h.map f

theorem reads_read
    (e : ε) (b : B) :
  Reads answer (read e : Proc B Reply ε B) [b] b
  := by
  intro closed w rest h
  apply returns_read e b h

theorem reads_readExact
    (e : ε) (bs : List B) {n : ℕ} (hn : bs.length = n) :
  Reads answer (readExact e n : Proc B Reply ε (List B)) bs bs
  := by
  subst hn
  induction bs with
  | nil => apply reads_pure
  | cons b bs ih => apply (reads_read e b).bind (ih.map _)

/-- A procedure that consumes exactly `bs` does not consume more. -/
theorem Reads.eq_nil
    {p : Proc B Reply ε α} {bs cs : List B} {a b : α} (h : H) (hp : Reads answer p bs a)
    (hq : Reads answer p (bs ++ cs) b) :
  cs = []
  := by
  let w : Endpoint H B := { host := h, input := bs ++ cs, buffer := [], sent := [] }
  have hp' := hp false w cs rfl
  have hq' := hq false w [] (List.append_nil _).symm
  apply congrArg Endpoint.input (hq'.unique hp').2

/-- The first procedure consumes exactly `bs` and then does what the second one does. -/
def Consumes (answer : H → (x : X) → Option (Reply x × H)) (p : Proc B Reply ε α) (bs : List B)
    (q : Proc B Reply ε α) : Prop :=
  ∀ (closed : Bool) (w w' : Endpoint H B) (rest : List B) (a : α), w.input = bs ++ rest →
    Returns answer closed q { w with input := rest } a w' → Returns answer closed p w a w'

theorem Consumes.refl
    (p : Proc B Reply ε α) :
  Consumes answer p [] p
  := by
  intro closed w w' rest a hw h
  cases w
  cases hw
  apply h

/-- A procedure that goes on after it has read. -/
theorem Reads.consumes
    {p : Proc B Reply ε α} {bs : List B} {a : α} (h : Reads answer p bs a)
    (f : α → Proc B Reply ε β) :
  Consumes answer (p >>= f) bs (f a)
  := by
  intro closed w w' rest b hw hf
  apply Returns.bind (h closed w rest hw) hf

theorem Consumes.reads
    {p q : Proc B Reply ε α} {bs cs : List B} {a : α} (h : Consumes answer p bs q)
    (hq : Reads answer q cs a) :
  Reads answer p (bs ++ cs) a
  := by
  intro closed w rest hw
  rw [List.append_assoc] at hw
  apply h closed w _ (cs ++ rest) a hw
  apply hq
  rfl

theorem Consumes.trans
    {p q r : Proc B Reply ε α} {bs cs : List B} (h : Consumes answer p bs q)
    (h' : Consumes answer q cs r) :
  Consumes answer p (bs ++ cs) r
  := by
  intro closed w w' rest a hw hr
  rw [List.append_assoc] at hw
  apply h closed w w' (cs ++ rest) a hw
  exact h' closed { w with input := cs ++ rest } w' rest a rfl hr

/-- A round that goes on consumes what it reads. -/
theorem consumes_loop_again
    {body : S → Proc B Reply ε (S ⊕ A)} {s s' : S} {bs : List B}
    (h : Reads answer (body s) bs (.inl s')) :
  Consumes answer (loop body s) bs (loop body s')
  := by
  intro closed w w' rest a hw hl
  apply returns_loop_again (h closed w rest hw) hl

/-- A procedure that reads what comes first in the input is safe when what follows is. -/
theorem Reads.safe_bind
    {p : Proc B Reply ε α} {f : α → Proc B Reply ε β} {bs rest : List B} {a : α}
    (h : Reads answer p bs a) {Q : β → Endpoint H B → Prop} {E : ε → Endpoint H B → Prop}
    {w : Endpoint H B} (hw : w.input = bs ++ rest)
    (hf : Safe (Prog.Answers (Endpoint.answer answer closed)) (fun _ _ => True) (f a) Q E
      { w with input := rest }) :
  Safe (Prog.Answers (Endpoint.answer answer closed)) (fun _ _ => True) (p >>= f) Q E w
  := by
  apply Safe.bind
  apply (h closed w rest hw).safe hf

theorem reads_loop_again
    {body : S → Proc B Reply ε (S ⊕ A)} {s s' : S} {bs cs : List B} {a : A}
    (h : Reads answer (body s) bs (.inl s')) (hl : Reads answer (loop body s') cs a) :
  Reads answer (loop body s) (bs ++ cs) a
  := by
  intro closed w rest hw
  rw [List.append_assoc] at hw
  apply returns_loop_again (h closed w (cs ++ rest) hw)
  apply hl
  rfl

theorem reads_loop_done
    {body : S → Proc B Reply ε (S ⊕ A)} {s : S} {bs : List B} {a : A}
    (h : Reads answer (body s) bs (.inr a)) :
  Reads answer (loop body s) bs a
  := by
  intro closed w rest hw
  apply returns_loop_done (h closed w rest hw)

/-- What follows a part that has been read is read by what follows the procedure that read
it. -/
theorem Reads.of_bind
    {p : Proc B Reply ε α} {f : α → Proc B Reply ε β} {bs cs : List B} {a : α} {b : β}
    (hp : Reads answer p bs a) (h : Reads answer (p >>= f) (bs ++ cs) b) :
  Reads answer (f a) cs b
  := by
  intro closed w rest hw
  let v : Endpoint H B := { w with input := bs ++ (cs ++ rest) }
  have hv := h closed v rest (List.append_assoc _ _ _).symm
  have hf := (hp closed v (cs ++ rest) rfl).bind_iff.mp hv
  cases w
  cases hw
  apply hf

/-- A procedure that goes on with a pure function has read what the function was given. -/
theorem Reads.of_map
    {p : Proc B Reply ε α} {f : α → β} (hf : Function.Injective f) {bs : List B} {a : α}
    (h : Reads answer (p >>= fun a => pure (f a)) bs (f a)) :
  Reads answer p bs a
  := by
  intro closed w rest hw
  obtain ⟨a', w₁, ha', hret⟩ := (h closed w rest hw).bind_inv
  obtain ⟨he, rfl⟩ := Prog.Ends.of_ret hret
  cases hf (Except.ok.inj he)
  apply ha'

/-- What a procedure reads is what it returns on some input. -/
theorem Reads.returns
    {p : Proc B Reply ε α} {bs : List B} {a : α} (host : H) (h : Reads answer p bs a) :
  ∃ w w' : Endpoint H B, Returns answer false p w a w'
  := by
  let w : Endpoint H B := { host := host, input := bs, buffer := [], sent := [] }
  exact ⟨w, _, h false w [] (List.append_nil _).symm⟩

/-- The procedure fails with `e` on every input that starts with `bs`. -/
def Rejects (answer : H → (x : X) → Option (Reply x × H)) (p : Proc B Reply ε α) (bs : List B)
    (e : ε) : Prop :=
  ∀ (closed : Bool) (w : Endpoint H B) (rest : List B), w.input = bs ++ rest →
    ∃ w', Fails answer closed p w e w'

theorem rejects_throw
    (e : ε) :
  Rejects answer (throw e : Proc B Reply ε α) [] e
  := by
  intro closed w rest hw
  use w
  apply Prog.Ends.ret

theorem Rejects.bind
    {p : Proc B Reply ε α} {f : α → Proc B Reply ε β} {bs : List B} {e : ε}
    (h : Rejects answer p bs e) :
  Rejects answer (p >>= f) bs e
  := by
  intro closed w rest hw
  obtain ⟨w', hf⟩ := h closed w rest hw
  use w'
  apply hf.bind

theorem Reads.bind_rejects
    {p : Proc B Reply ε α} {f : α → Proc B Reply ε β} {bs cs : List B} {a : α} {e : ε}
    (hp : Reads answer p bs a) (hf : Rejects answer (f a) cs e) :
  Rejects answer (p >>= f) (bs ++ cs) e
  := by
  intro closed w rest hw
  rw [List.append_assoc] at hw
  obtain ⟨w', hf'⟩ := hf closed { w with input := cs ++ rest } rest rfl
  use w'
  apply (hp closed w _ hw).bind_fails hf'

/-- What is rejected goes on being rejected when more comes. -/
theorem Rejects.append
    {p : Proc B Reply ε α} {bs : List B} {e : ε} (h : Rejects answer p bs e) (cs : List B) :
  Rejects answer p (bs ++ cs) e
  := by
  intro closed w rest hw
  apply h closed w (cs ++ rest)
  rw [hw, List.append_assoc]

/-- What is rejected is not read. -/
theorem Rejects.not_reads
    {p : Proc B Reply ε α} {bs cs bs' cs' : List B} {e : ε} {a : α} (host : H)
    (h : Rejects answer p bs e) (hr : Reads answer p cs a) :
  bs ++ bs' ≠ cs ++ cs'
  := by
  intro heq
  let w : Endpoint H B := { host := host, input := bs ++ bs', buffer := [], sent := [] }
  obtain ⟨w', hf⟩ := h false w bs' rfl
  apply hf.not_returns (hr false w cs' heq)

theorem Rejects.not_reads_append
    {p : Proc B Reply ε α} {bs cs : List B} {e : ε} {a : α} (host : H) (h : Rejects answer p bs e) :
  ¬ Reads answer p (bs ++ cs) a
  := by
  intro hr
  apply h.not_reads host hr (List.append_nil (bs ++ cs)).symm

/-- A procedure reads an input in one way. -/
theorem Reads.unique
    {p : Proc B Reply ε α} {bs cs bs' cs' : List B} {a b : α} (host : H) (h : Reads answer p bs a)
    (h' : Reads answer p cs b) (heq : bs ++ bs' = cs ++ cs') :
  a = b ∧ bs = cs
  := by
  let w : Endpoint H B := { host := host, input := bs ++ bs', buffer := [], sent := [] }
  obtain ⟨hab, hw⟩ := (h' false w cs' heq).unique (h false w bs' rfl)
  apply And.intro hab
  have hrest : bs' = cs' := congrArg Endpoint.input hw
  rw [hrest] at heq
  apply List.append_cancel_right heq

/-- The procedure fails when there is no input. -/
def NeedsInput (answer : H → (x : X) → Option (Reply x × H)) (p : Proc B Reply ε α) : Prop :=
  ∀ w : Endpoint H B, w.input = [] → ∃ e w', Fails answer true p w e w'

theorem needsInput_read
    (e : ε) :
  NeedsInput answer (read e : Proc B Reply ε B)
  := by
  intro w hw
  exact ⟨e, w, fails_read e hw⟩

theorem NeedsInput.bind
    {p : Proc B Reply ε α} {f : α → Proc B Reply ε β} (h : NeedsInput answer p) :
  NeedsInput answer (p >>= f)
  := by
  intro w hw
  obtain ⟨e, w', hf⟩ := h w hw
  exact ⟨e, w', hf.bind⟩

/-- What needs input does not do without. -/
theorem NeedsInput.not_reads_nil
    {p : Proc B Reply ε α} {a : α} (host : H) (h : NeedsInput answer p) :
  ¬ Reads answer p [] a
  := by
  intro hr
  let w : Endpoint H B := { host := host, input := [], buffer := [], sent := [] }
  obtain ⟨e, w', hf⟩ := h w rfl
  apply hf.not_returns (hr true w [] rfl)

theorem rejects_loop
    {body : S → Proc B Reply ε (S ⊕ A)} {s : S} {bs : List B} {e : ε}
    (h : Rejects answer (body s) bs e) :
  Rejects answer (loop body s) bs e
  := by
  intro closed w rest hw
  obtain ⟨w', hf⟩ := h closed w rest hw
  have hr : Prog.Ends (Prog.Answers (Endpoint.answer answer closed)) (round body s) w
      (.inr (.error e)) w' := Prog.Ends.bind hf (Prog.Ends.ret _ _)
  use w'
  apply Prog.Ends.loop_done hr (Prog.Ends.ret _ _)

theorem writes_pure
    (a : α) :
  Writes answer (pure a : Proc B Reply ε α) [] a
  := by
  intro closed w
  rw [List.append_nil]
  apply returns_pure

theorem Writes.bind
    {p : Proc B Reply ε α} {f : α → Proc B Reply ε β} {bs cs : List B} {a : α} {b : β}
    (hp : Writes answer p bs a) (hf : Writes answer (f a) cs b) :
  Writes answer (p >>= f) (bs ++ cs) b
  := by
  intro closed w
  rw [← List.append_assoc]
  apply Returns.bind (hp closed w)
  apply hf

/-- A procedure that goes on with a pure function of what it wrote. -/
theorem Writes.map
    {p : Proc B Reply ε α} {bs : List B} {a : α} (h : Writes answer p bs a) (f : α → β) :
  Writes answer (p >>= fun a => pure (f a)) bs (f a)
  := by
  intro closed w
  apply Returns.bind (h closed w)
  apply returns_pure

/-- A traversal goes through the elements of two lists one after the other. -/
theorem forEach_append
    (f : S → A → Proc B Reply ε S) (s : S) (as bs : List A) :
  forEach f s (as ++ bs) = forEach f s as >>= fun s => forEach f s bs
  := by
  induction as generalizing s with
  | nil =>
      rw [List.nil_append, forEach, pure_bind]
  | cons a as ih =>
      rw [List.cons_append, forEach, forEach, bind_assoc]
      congr
      funext s
      apply ih

/-- A traversal that goes on with one more element. -/
theorem writes_forEach_snoc
    {f : S → A → Proc B Reply ε S} {s s₁ s₂ : S} {as : List A} {a : A} {bs cs : List B}
    (h : Writes answer (forEach f s as) bs s₁) (ha : Writes answer (f s₁ a) cs s₂) :
  Writes answer (forEach f s (as ++ [a])) (bs ++ cs) s₂
  := by
  rw [forEach_append]
  apply h.bind
  rw [forEach, ← List.append_nil cs]
  apply ha.bind
  apply writes_pure

theorem writes_loop_again
    {body : S → Proc B Reply ε (S ⊕ A)} {s s' : S} {bs cs : List B} {a : A}
    (h : Writes answer (body s) bs (.inl s')) (hl : Writes answer (loop body s') cs a) :
  Writes answer (loop body s) (bs ++ cs) a
  := by
  intro closed w
  rw [← List.append_assoc]
  apply returns_loop_again (h closed w)
  apply hl

theorem writes_loop_done
    {body : S → Proc B Reply ε (S ⊕ A)} {s : S} {bs : List B} {a : A}
    (h : Writes answer (body s) bs (.inr a)) :
  Writes answer (loop body s) bs a
  := by
  intro closed w
  apply returns_loop_done (h closed w)

theorem writes_write
    (e : ε) (bs : List B) :
  Writes answer (write e bs : Proc B Reply ε Unit) bs ()
  := by
  intro closed w
  apply returns_write

/-- A procedure writes in one way. -/
theorem Writes.unique
    {p : Proc B Reply ε α} {bs cs : List B} {a b : α} (host : H) (h : Writes answer p bs a)
    (h' : Writes answer p cs b) :
  bs = cs
  := by
  let w : Endpoint H B := { host := host, input := [], buffer := [], sent := [] }
  apply congrArg Endpoint.buffer ((h' false w).unique (h false w)).2

/-- The procedure writes something and returns. -/
def Emits (answer : H → (x : X) → Option (Reply x × H)) (p : Proc B Reply ε Unit) : Prop :=
  ∃ bs, Writes answer p bs ()

theorem Emits.bind
    {p q : Proc B Reply ε Unit} (hp : Emits answer p) (hq : Emits answer q) :
  Emits answer (p >>= fun _ => q)
  := by
  obtain ⟨bs, hp⟩ := hp
  obtain ⟨cs, hq⟩ := hq
  use bs ++ cs
  apply hp.bind hq

theorem emits_pure :
  Emits answer (pure () : Proc B Reply ε Unit)
  := ⟨[], writes_pure ()⟩

/-- A procedure that fails does not write. -/
theorem Rejects.not_writes
    {p : Proc B Reply ε α} {bs : List B} {e : ε} {a : α} (host : H) (h : Rejects answer p [] e) :
  ¬ Writes answer p bs a
  := by
  intro hw
  let w : Endpoint H B := { host := host, input := [], buffer := [], sent := [] }
  obtain ⟨w', hf⟩ := h false w [] rfl
  apply hf.not_returns (hw false w)

/-- What the first procedure writes when it returns `x` is read as `a` by the second one. -/
def Carries (answer : H → (x : X) → Option (Reply x × H)) (p : Proc B Reply ε α) (x : α)
    (q : Proc B Reply ε β) (b : β) : Prop :=
  ∃ bs, Writes answer p bs x ∧ Reads answer q bs b

theorem carries_pure
    (a : α) (b : β) :
  Carries answer (pure a : Proc B Reply ε α) a (pure b : Proc B Reply ε β) b
  := by
  use []
  apply And.intro (writes_pure a) (reads_pure b)

theorem Carries.bind
    {α' β' : Type} {p : Proc B Reply ε α} {q : Proc B Reply ε β} {x : α} {b : β}
    {f : α → Proc B Reply ε α'} {g : β → Proc B Reply ε β'} {y : α'} {c : β'}
    (h : Carries answer p x q b) (hfg : Carries answer (f x) y (g b) c) :
  Carries answer (p >>= f) y (q >>= g) c
  := by
  obtain ⟨bs, hp, hq⟩ := h
  obtain ⟨cs, hf, hg⟩ := hfg
  use bs ++ cs
  apply And.intro (hp.bind hf) (hq.bind hg)

/-- The reader goes on with a pure function of what it read. -/
theorem Carries.map
    {β' : Type} {p : Proc B Reply ε α} {q : Proc B Reply ε β} {x : α} {b : β}
    (h : Carries answer p x q b) (g : β → β') :
  Carries answer p x (q >>= fun b => pure (g b)) (g b)
  := by
  obtain ⟨bs, hp, hq⟩ := h
  use bs
  apply And.intro hp (hq.map g)

/-- The reader goes on with a pure function of what it read, whose value is known. -/
theorem Carries.map_eq
    {β' : Type} {p : Proc B Reply ε α} {q : Proc B Reply ε β} {x : α} {b : β}
    (h : Carries answer p x q b) (g : β → β') {c : β'} (hc : g b = c) :
  Carries answer p x (q >>= fun b => pure (g b)) c
  := hc ▸ h.map g

end Proc
