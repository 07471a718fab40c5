import RsyncRs.Program.Channel
import RsyncRs.Program.Layer

/-!
# Programs with a memory

Some of the commands of a program may be answered from a memory, and the other ones by its
environment. What a program does in one environment it does with a memory in another one, when the
memory and the second environment answer together as the first one does.

A procedure that reads from a buffer takes what it reads from a memory, and one that writes to a
buffer leaves there what it writes.
-/

namespace Prog

variable {C : Type} {R : C → Type} {M V W α β : Type}

/-- The program with the commands that `handle` answers from the memory answered there. It returns
the memory, too. -/
def withMemory (handle : M → (c : C) → Option (R c × M)) :
    {α : Type} → Prog R α → M → Prog R (α × M)
  | _, .ret a, m => .ret (a, m)
  | _, .call c k, m =>
    match handle m c with
    | some (r, m) => withMemory handle (k r) m
    | none => .call c fun r => withMemory handle (k r) m
  | _, .loop body s k, m =>
    .loop (fun x => withMemory handle (body x.1) x.2 >>= fun y => .ret (keep y)) (s, m) fun y =>
      withMemory handle (k y.1) y.2
where
  /-- What a round returns, with the memory. -/
  keep {S A : Type} : (S ⊕ A) × M → (S × M) ⊕ (A × M)
    | (.inl s, m) => .inl (s, m)
    | (.inr a, m) => .inr (a, m)

variable {handle : M → (c : C) → Option (R c × M)}

/-- A memory is a layer that leaves to its environment what it does not answer. -/
def memoryLayer (handle : M → (c : C) → Option (R c × M)) (m : M) (c : C) : Prog R (R c × M) :=
  match handle m c with
  | some x => .ret x
  | none => .call c fun r => .ret (r, m)

theorem keep_eq_keeping
    {S A : Type} (y : (S ⊕ A) × M) :
  withMemory.keep y = keeping y
  := by
  obtain ⟨r, m⟩ := y
  cases r with
  | inl s => rfl
  | inr a => rfl

theorem withMemory_eq_through
    (p : Prog R α) (m : M) :
  p.withMemory handle m = p.through (memoryLayer handle) m
  := by
  induction p generalizing m with
  | ret a => rfl
  | call c k ih =>
      rw [withMemory, through, memoryLayer]
      cases handle m c with
      | some x => exact ih _ _
      | none =>
          dsimp only
          rw [call_bind]
          congr
          funext r
          exact ih _ _
  | loop body s k ihbody ih =>
      rw [withMemory, through]
      simp only [ihbody, ih, keep_eq_keeping]

variable {act : V → (c : C) → R c → V → Prop} {act' : W → (c : C) → R c → W → Prop}

/-- The memory and the second environment answer together as the first environment does. The
relation says which memories and which states of the two environments belong together. -/
def Together (handle : M → (c : C) → Option (R c × M)) (act : V → (c : C) → R c → V → Prop)
    (act' : W → (c : C) → R c → W → Prop) (rel : V → M → W → Prop) : Prop :=
  ∀ v m w c r v', rel v m w → act v c r v' →
    (∃ m', handle m c = some (r, m') ∧ rel v' m' w) ∨
      handle m c = none ∧ ∃ w', act' w c r w' ∧ rel v' m w'

variable {rel : V → M → W → Prop}

theorem Together.carriesOut
    (h : Together handle act act' rel) :
  CarriesOut (memoryLayer handle) act act' rel
  := by
  intro v m w c r v' hrel hact
  unfold memoryLayer
  rcases h v m w c r v' hrel hact with ⟨m', hhandle, hrel'⟩ | ⟨hhandle, w', hact', hrel'⟩
  · rw [hhandle]
    exact ⟨m', w, Ends.ret _ _, hrel'⟩
  · rw [hhandle]
    exact ⟨m, w', Ends.call hact' (Ends.ret _ _), hrel'⟩

theorem Step.withMemory
    (htogether : Together handle act act' rel) {p q : Prog R α} {v v' : V} {m : M} {w : W}
    (h : Step act (p, v) (q, v')) (hrel : rel v m w) :
  ∃ m' w', Reaches act' (p.withMemory handle m, w) (q.withMemory handle m', w') ∧ rel v' m' w'
  := by
  simp only [withMemory_eq_through]
  exact h.through htogether.carriesOut hrel

/-- A program that returns does so with a memory. -/
theorem Ends.withMemory
    (htogether : Together handle act act' rel) {p : Prog R α} {v v' : V} {m : M} {w : W} {a : α}
    (h : Ends act p v a v') (hrel : rel v m w) :
  ∃ m' w', Ends act' (p.withMemory handle m) w (a, m') w' ∧ rel v' m' w'
  := by
  unfold Ends Reaches at h
  generalize hx : (p, v) = x at h
  induction h using Relation.ReflTransGen.head_induction_on generalizing p v m w with
  | refl =>
      cases hx
      exact ⟨m, w, Ends.ret _ _, hrel⟩
  | @head _ y hstep _ ih =>
      subst hx
      obtain ⟨q, v₁⟩ := y
      obtain ⟨m₁, w₁, hreaches, hrel₁⟩ := hstep.withMemory htogether hrel
      obtain ⟨m', w', hends, hrel'⟩ := ih hrel₁ rfl
      exact ⟨m', w', hreaches.trans hends, hrel'⟩

end Prog

namespace Proc

variable {B X H ε α : Type} {Reply : X → Type} {answer : H → (x : X) → Option (Reply x × H)}

/-! ### Buffers -/

/-- A buffer answers what is read. -/
def readFrom (buf : List B) : (c : Act B X) → Option (Answer Reply c × List B)
  | .read =>
    match buf with
    | b :: bs => some (some b, bs)
    | [] => some (none, [])
  | _ => none

/-- A buffer takes what is written. -/
def writeTo (buf : List B) : (c : Act B X) → Option (Answer Reply c × List B)
  | .write bs => some (true, buf ++ bs)
  | .flush => some (true, buf)
  | _ => none

/-- Run a procedure that reads from a buffer. -/
def onCursor (p : Proc B Reply ε α) (buf : List B) : Proc B Reply ε α :=
  ofProg do
    let (r, _) ← p.run.withMemory readFrom buf
    pure r

/-- Run a procedure that writes to a buffer, and return the buffer. -/
def toVec (p : Proc B Reply ε α) : Proc B Reply ε (α × List B) :=
  ofProg do
    let (r, buf) ← p.run.withMemory writeTo []
    pure (r.map fun a => (a, buf))

/-- What the host answers does not depend on the channel. -/
theorem answers_host
    {closed closed' : Bool} {v v' w : Endpoint H B} {x : X} {r : Answer (B := B) Reply (.host x)}
    (hhost : v.host = w.host)
    (h : Prog.Answers (Endpoint.answer answer closed) v (.host x) r v') :
  v' = { v with host := v'.host } ∧
    Prog.Answers (Endpoint.answer answer closed') w (.host x) r { w with host := v'.host }
  := by
  unfold Prog.Answers Endpoint.answer at h ⊢
  dsimp only at h ⊢
  rw [← hhost]
  cases hanswer : answer v.host x with
  | none =>
      rw [hanswer] at h
      cases h
  | some y =>
      rw [hanswer] at h
      cases h
      exact ⟨rfl, rfl⟩

/-- A run that reads from an input which ends is one that reads from a buffer. -/
theorem ends_onCursor
    {p : Proc B Reply ε α} {buf : List B} {w v : Endpoint H B} {r : Except ε α}
    (h : Prog.Ends (Prog.Answers (Endpoint.answer answer true)) p.run { w with input := buf } r v)
    (closed : Bool) :
  ∃ w', Prog.Ends (Prog.Answers (Endpoint.answer answer closed)) (p.onCursor buf).run w r w' ∧
    w' = { v with input := w.input }
  := by
  -- the endpoint of the procedure is the other one, with the buffer for its input
  have htogether : Prog.Together readFrom (Prog.Answers (Endpoint.answer answer true))
      (Prog.Answers (Endpoint.answer answer closed))
      fun (v : Endpoint H B) buf v' => v = { v' with input := buf } ∧ v'.input = w.input := by
    rintro v buf v' c r v₁ ⟨rfl, hinput⟩ hact
    cases c with
    | read =>
        left
        cases buf with
        | nil =>
            cases hact
            exact ⟨[], rfl, rfl, hinput⟩
        | cons b buf =>
            cases hact
            exact ⟨buf, rfl, rfl, hinput⟩
    | write cs =>
        cases hact
        exact .inr ⟨rfl, _, rfl, rfl, hinput⟩
    | flush =>
        cases hact
        exact .inr ⟨rfl, _, rfl, rfl, hinput⟩
    | host x =>
        obtain ⟨hv₁, hanswer⟩ := answers_host (v := { v' with input := buf }) (w := v') rfl hact
        exact .inr ⟨rfl, _, hanswer, hv₁, hinput⟩
  obtain ⟨rest, w', hends, rfl, hinput⟩ := h.withMemory htogether ⟨rfl, rfl⟩
  refine ⟨w', hends.bind (Prog.Ends.ret _ _), ?_⟩
  rw [← hinput]

/-- What a procedure reads from its input it reads from a buffer. -/
theorem Reads.onCursor
    {p : Proc B Reply ε α} {bs : List B} {a : α} (h : Reads answer p bs a) (rest : List B) :
  Reads answer (p.onCursor (bs ++ rest)) [] a
  := by
  intro closed w input hw
  rw [List.nil_append] at hw
  subst hw
  obtain ⟨w', hends, rfl⟩ := ends_onCursor (h true { w with input := bs ++ rest } rest rfl) closed
  exact hends

/-- What a procedure rejects of its input it rejects of a buffer. -/
theorem Rejects.onCursor
    {p : Proc B Reply ε α} {bs : List B} {e : ε} (h : Rejects answer p bs e) (rest : List B) :
  Rejects answer (p.onCursor (bs ++ rest)) [] e
  := by
  intro closed w _ _
  obtain ⟨v, hfails⟩ := h true { w with input := bs ++ rest } rest rfl
  obtain ⟨w', hends, -⟩ := ends_onCursor hfails closed
  exact ⟨w', hends⟩

/-- What a procedure writes to its output it writes to a buffer. -/
theorem Writes.toVec
    {p : Proc B Reply ε α} {bs : List B} {a : α} (h : Writes answer p bs a) :
  Writes answer p.toVec [] (a, bs)
  := by
  intro closed w
  have hrun := h closed { w with buffer := [], sent := [] }
  -- what the procedure has sent or not yet sent is in the buffer
  have htogether : Prog.Together writeTo (Prog.Answers (Endpoint.answer answer closed))
      (Prog.Answers (Endpoint.answer answer closed))
      fun (v : Endpoint H B) buf v' => v.sent ++ v.buffer = buf ∧ v.host = v'.host ∧
        v.input = v'.input ∧ v'.buffer = w.buffer ∧ v'.sent = w.sent := by
    rintro v buf v' c r v₁ ⟨rfl, hhost, hinput, hbuffer, hsent⟩ hact
    cases c with
    | read =>
        right
        refine ⟨rfl, { v' with input := v₁.input }, ?_⟩
        obtain ⟨host, input, buffer, sent⟩ := v
        obtain ⟨host', input', buffer', sent'⟩ := v'
        dsimp only at hhost hinput
        subst hhost hinput
        cases input with
        | nil =>
            cases closed with
            | false => cases hact
            | true =>
                cases hact
                exact ⟨rfl, rfl, rfl, rfl, hbuffer, hsent⟩
        | cons b input =>
            cases hact
            exact ⟨rfl, rfl, rfl, rfl, hbuffer, hsent⟩
    | write cs =>
        cases hact
        exact .inl ⟨_, rfl, (List.append_assoc ..).symm, hhost, hinput, hbuffer, hsent⟩
    | flush =>
        cases hact
        exact .inl ⟨_, rfl, List.append_nil _, hhost, hinput, hbuffer, hsent⟩
    | host x =>
        obtain ⟨hv₁, hanswer⟩ := answers_host (w := v') hhost hact
        refine .inr ⟨rfl, _, hanswer, ?_⟩
        rw [hv₁]
        exact ⟨rfl, rfl, hinput, hbuffer, hsent⟩
  obtain ⟨buf, w', hends, rfl, hhost, hinput, hbuffer, hsent⟩ :=
    hrun.withMemory (m := []) (w := w) htogether ⟨rfl, rfl, rfl, rfl, rfl⟩
  obtain ⟨host, input, buffer, sent⟩ := w'
  dsimp only at hhost hinput hbuffer hsent
  subst hhost hinput hbuffer hsent
  rw [List.append_nil]
  exact hends.bind (Prog.Ends.ret _ _)

end Proc
