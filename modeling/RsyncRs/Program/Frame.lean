import RsyncRs.Program.Channel

/-!
# Procedures that only read and procedures that only write

What a procedure does that only reads depends on its input alone: at any endpoint with the
same input it returns the same, and it leaves everything but the input as it was. A procedure
that only writes does the same at every endpoint.
-/

variable {B X H : Type} {Reply : X → Type}

/-! ### Reading -/

/-- The only command of the program is to read. -/
def Prog.OnlyReads : {α : Type} → Prog (Answer (B := B) Reply) α → Prop
  | _, .ret _ => True
  | _, .call .read k => ∀ r, Prog.OnlyReads (k r)
  | _, .call _ _ => False
  | _, .loop _ _ _ => False

theorem Prog.OnlyReads.bind
    {α β : Type} {p : Prog (Answer (B := B) Reply) α} {f : α → Prog (Answer (B := B) Reply) β}
    (hp : Prog.OnlyReads p) (hf : ∀ a, Prog.OnlyReads (f a)) :
  Prog.OnlyReads (p >>= f)
  := by
  induction p with
  | ret a => apply hf
  | call c k ih =>
      cases c with
      | read =>
          intro r
          apply ih r (hp r) hf
      | write bs => cases hp
      | flush => cases hp
      | host x => cases hp
  | loop body s k => cases hp

/-- The answer to a read is decided by the input. -/
theorem Endpoint.answer_read
    {answer : H → (x : X) → Option (Reply x × H)} {closed : Bool} {w w' : Endpoint H B}
    {r : Answer (B := B) Reply .read}
    (h : Endpoint.answer answer closed w .read = some (r, w')) :
  w' = { w with input := w'.input } ∧
    ∀ v : Endpoint H B, v.input = w.input →
      Endpoint.answer answer closed v .read = some (r, { v with input := w'.input })
  := by
  cases hw : w.input with
  | nil =>
      simp only [Endpoint.answer, hw] at h
      split at h
      · next hc =>
        cases h
        apply And.intro rfl
        intro v hv
        cases v
        cases hv
        simp only [Endpoint.answer, hw, hc, if_true]
      · cases h
  | cons b bs =>
      simp only [Endpoint.answer, hw] at h
      cases h
      apply And.intro rfl
      intro v hv
      simp only [Endpoint.answer, hv]

/-- A run of a program that only reads leaves everything but the input, and is a run from
every endpoint with the same input. -/
theorem Prog.OnlyReads.frame
    {α : Type} {answer : H → (x : X) → Option (Reply x × H)} {closed : Bool}
    {p : Prog (Answer (B := B) Reply) α} {w w' : Endpoint H B} {a : α} (hp : Prog.OnlyReads p)
    (h : Prog.Ends (Prog.Answers (Endpoint.answer answer closed)) p w a w') :
  w' = { w with input := w'.input } ∧
    ∀ v : Endpoint H B, v.input = w.input →
      Prog.Ends (Prog.Answers (Endpoint.answer answer closed)) p v a
        { v with input := w'.input }
  := by
  induction p generalizing w with
  | ret b =>
      obtain ⟨rfl, rfl⟩ := Prog.Ends.of_ret h
      apply And.intro rfl
      intro v hv
      rw [← hv]
      apply Prog.Ends.ret
  | loop body s k => cases hp
  | call c k ih =>
      cases c with
      | write bs => cases hp
      | flush => cases hp
      | host x => cases hp
      | read =>
          rcases Relation.ReflTransGen.cases_head h with he | ⟨y, hy, hend⟩
          · cases he
          · cases hy with
            | @call _ _ r _ w₁ hr =>
                obtain ⟨hw₁, hv₁⟩ := Endpoint.answer_read hr
                obtain ⟨hw', hv'⟩ := ih r (hp r) hend
                constructor
                · rw [hw', hw₁]
                · intro v hv
                  apply Prog.Ends.call (hv₁ v hv)
                  exact hv' { v with input := w₁.input } rfl

/-! ### Writing -/

/-- The only command of the program is to write. -/
def Prog.OnlyWrites : {α : Type} → Prog (Answer (B := B) Reply) α → Prop
  | _, .ret _ => True
  | _, .call (.write _) k => ∀ r, Prog.OnlyWrites (k r)
  | _, .call _ _ => False
  | _, .loop _ _ _ => False

theorem Prog.OnlyWrites.bind
    {α β : Type} {p : Prog (Answer (B := B) Reply) α} {f : α → Prog (Answer (B := B) Reply) β}
    (hp : Prog.OnlyWrites p) (hf : ∀ a, Prog.OnlyWrites (f a)) :
  Prog.OnlyWrites (p >>= f)
  := by
  induction p with
  | ret a => apply hf
  | call c k ih =>
      cases c with
      | write bs =>
          intro r
          apply ih r (hp r) hf
      | read => cases hp
      | flush => cases hp
      | host x => cases hp
  | loop body s k => cases hp

/-- A run of a program that only writes adds the same bytes to the buffer at every
endpoint. -/
theorem Prog.OnlyWrites.frame
    {α : Type} {answer : H → (x : X) → Option (Reply x × H)} {closed : Bool}
    {p : Prog (Answer (B := B) Reply) α} {w w' : Endpoint H B} {a : α} (hp : Prog.OnlyWrites p)
    (h : Prog.Ends (Prog.Answers (Endpoint.answer answer closed)) p w a w') :
  ∃ bs, w' = { w with buffer := w.buffer ++ bs } ∧
    ∀ closed (v : Endpoint H B), Prog.Ends (Prog.Answers (Endpoint.answer answer closed)) p v a
      { v with buffer := v.buffer ++ bs }
  := by
  induction p generalizing w with
  | ret b =>
      obtain ⟨rfl, rfl⟩ := Prog.Ends.of_ret h
      use []
      simp only [List.append_nil, true_and]
      intro closed v
      apply Prog.Ends.ret
  | loop body s k => cases hp
  | call c k ih =>
      cases c with
      | read => cases hp
      | flush => cases hp
      | host x => cases hp
      | write cs =>
          rcases Relation.ReflTransGen.cases_head h with he | ⟨y, hy, hend⟩
          · cases he
          · cases hy with
            | call hr =>
                cases hr
                obtain ⟨bs, hw', hv'⟩ := ih true (hp true) hend
                use cs ++ bs
                simp only [← List.append_assoc]
                apply And.intro hw'
                intro closed v
                apply Prog.Ends.call (r := (true : Bool)) rfl
                exact hv' closed { v with buffer := v.buffer ++ cs }

namespace Proc

variable {ε α β : Type}

/-- The only command of the procedure is to read. -/
def OnlyReads (p : Proc B Reply ε α) : Prop :=
  Prog.OnlyReads p.run

theorem onlyReads_pure
    (a : α) :
  OnlyReads (pure a : Proc B Reply ε α)
  := trivial

theorem onlyReads_read
    (e : ε) :
  OnlyReads (read e : Proc B Reply ε B)
  := by
  intro r
  cases r with
  | none => trivial
  | some b => trivial

theorem OnlyReads.bind
    {p : Proc B Reply ε α} {f : α → Proc B Reply ε β} (hp : OnlyReads p)
    (hf : ∀ a, OnlyReads (f a)) :
  OnlyReads (p >>= f)
  := by
  apply Prog.OnlyReads.bind hp
  intro r
  cases r with
  | ok a => apply hf a
  | error e => trivial

theorem OnlyReads.attempt
    {p : Proc B Reply ε α} (hp : OnlyReads p) :
  OnlyReads (attempt p)
  := by
  apply Prog.OnlyReads.bind hp
  intro r
  trivial

theorem onlyReads_readExact
    (e : ε) (n : ℕ) :
  OnlyReads (readExact e n : Proc B Reply ε (List B))
  := by
  induction n with
  | zero => apply onlyReads_pure
  | succ n ih =>
      apply (onlyReads_read e).bind
      intro b
      apply ih.bind
      intro bs
      apply onlyReads_pure

/-- A procedure that only reads returns the same at every endpoint with the same input. -/
theorem OnlyReads.frame
    {answer : H → (x : X) → Option (Reply x × H)} {closed : Bool} {p : Proc B Reply ε α}
    {w w' : Endpoint H B} {a : α} (hp : OnlyReads p) (h : Returns answer closed p w a w') :
  w' = { w with input := w'.input } ∧
    ∀ v : Endpoint H B, v.input = w.input →
      Returns answer closed p v a { v with input := w'.input }
  := Prog.OnlyReads.frame hp h

/-- The only command of the procedure is to write. -/
def OnlyWrites (p : Proc B Reply ε α) : Prop :=
  Prog.OnlyWrites p.run

theorem onlyWrites_pure
    (a : α) :
  OnlyWrites (pure a : Proc B Reply ε α)
  := trivial

theorem onlyWrites_throw
    (e : ε) :
  OnlyWrites (throw e : Proc B Reply ε α)
  := trivial

theorem onlyWrites_write
    (e : ε) (bs : List B) :
  OnlyWrites (write e bs : Proc B Reply ε Unit)
  := by
  intro r
  cases r with
  | false => trivial
  | true => trivial

theorem OnlyWrites.bind
    {p : Proc B Reply ε α} {f : α → Proc B Reply ε β} (hp : OnlyWrites p)
    (hf : ∀ a, OnlyWrites (f a)) :
  OnlyWrites (p >>= f)
  := by
  apply Prog.OnlyWrites.bind hp
  intro r
  cases r with
  | ok a => apply hf a
  | error e => trivial

/-- A procedure that only writes writes the same bytes everywhere. -/
theorem OnlyWrites.frame
    {answer : H → (x : X) → Option (Reply x × H)} {closed : Bool} {p : Proc B Reply ε α}
    {w w' : Endpoint H B} {a : α} (hp : OnlyWrites p) (h : Returns answer closed p w a w') :
  ∃ bs, w' = { w with buffer := w.buffer ++ bs } ∧ Writes answer p bs a
  := Prog.OnlyWrites.frame hp h

end Proc
