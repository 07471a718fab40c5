import RsyncRs.Program.Coded

/-!
# Buffers that are given up

A procedure may read its channel through a buffer and give the buffer up later. Then it loses what
has reached the buffer and was not read. How much this is depends on the timing: it may be anything
that has arrived. When the parties have no choice but to wait whenever a buffer is given up, and
nothing has arrived that is not read, then nothing is ever lost, whatever the timing.
-/

open Relation

variable {B X Y : Type} {Reply : X → Type} {Reply' : Y → Type} {H H' ε ε' α β : Type}

/-- The commands to a host, and the command to give up the buffer in front of the channel. -/
inductive Buffered (X : Type) where
  | host (x : X)
  | giveUp

/-- Giving up the buffer is answered by how much it held. -/
def BufferedReply (Reply : X → Type) : Buffered X → Type
  | .host x => Reply x
  | .giveUp => ℕ

namespace Proc

/-- Give up the buffer. -/
def giveUp : Proc B (BufferedReply Reply) ε ℕ :=
  (host Buffered.giveUp : Proc B (BufferedReply Reply) ε (BufferedReply Reply Buffered.giveUp))

/-- Commands to a channel without a buffer. -/
def unbufferedLayer (u : Unit) :
    (c : Act B X) → Prog (Answer (B := B) (BufferedReply Reply)) (Answer (B := B) Reply c × Unit)
  | .read => .call .read fun r => .ret (r, u)
  | .write bs => .call (.write bs) fun r => .ret (r, u)
  | .flush => .call .flush fun r => .ret (r, u)
  | .host x => .call (.host (.host x)) fun r => .ret (r, u)

/-- A procedure that does without a buffer. -/
def unbuffered (p : Proc B Reply ε α) : Proc B (BufferedReply Reply) ε α :=
  ofProg (p.run.through unbufferedLayer () >>= fun x => .ret x.1)

end Proc

/-- The host of a procedure that keeps its buffer. -/
def keepsBuffer (answer : H → (x : X) → Option (Reply x × H)) (h : H) :
    (x : Buffered X) → Option (BufferedReply Reply x × H)
  | .host x => answer h x
  | .giveUp => none

/-! ### Procedures without a buffer -/

/-- A layer without a buffer leaves the commands to the same host. -/
theorem carriesOut_unbufferedLayer
    (answer : H → (x : Buffered X) → Option (BufferedReply Reply x × H)) (closed : Bool) :
  Prog.CarriesOut
    (Proc.unbufferedLayer : Unit → (c : Act B X) →
      Prog (Answer (B := B) (BufferedReply Reply)) (Answer (B := B) Reply c × Unit))
    (Prog.Answers (Endpoint.answer (fun h x => answer h (.host x)) closed))
    (Prog.Answers (Endpoint.answer answer closed)) fun v _ w => w = v
  := by
  rintro _ ⟨⟩ w c r v' rfl hact
  refine ⟨(), v', ?_, rfl⟩
  cases c with
  | read => exact Prog.Ends.call hact (Prog.Ends.ret _ _)
  | write bs => exact Prog.Ends.call hact (Prog.Ends.ret _ _)
  | flush => exact Prog.Ends.call hact (Prog.Ends.ret _ _)
  | host x =>
      simp only [Prog.Answers, Endpoint.answer] at hact
      cases hanswer : answer w.host (.host x) with
      | none =>
          rw [hanswer] at hact
          cases hact
      | some z =>
          rw [hanswer] at hact
          cases hact
          have hcall : Prog.Answers (Endpoint.answer answer closed) w (.host (.host x)) z.1
              { w with host := z.2 } := by
            simp only [Prog.Answers, Endpoint.answer, hanswer]
          exact Prog.Ends.call hcall (Prog.Ends.ret _ _)

/-- What a program comes to, it comes to without a buffer. -/
theorem reaches_unbufferedLayer
    (answer : H → (x : Buffered X) → Option (BufferedReply Reply x × H)) {closed : Bool}
    {x y : Prog (Answer (B := B) Reply) α × Endpoint H B}
    (h : Prog.Reaches (Prog.Answers (Endpoint.answer (fun h x => answer h (.host x)) closed)) x y) :
  Prog.Reaches (Prog.Answers (Endpoint.answer answer closed))
    (x.1.through Proc.unbufferedLayer () >>= fun z => .ret z.1, x.2)
    (y.1.through Proc.unbufferedLayer () >>= fun z => .ret z.1, y.2)
  := by
  induction h with
  | refl => exact .refl
  | tail _ hstep ih =>
      obtain ⟨⟨⟩, _, hreaches, rfl⟩ :=
        hstep.through (carriesOut_unbufferedLayer answer closed) rfl
      exact ih.trans (Prog.Reaches.bind hreaches fun z => .ret z.1)

namespace Proc

variable {answer : H → (x : X) → Option (Reply x × H)}

theorem unbuffered_bind
    (p : Proc B Reply ε α) (f : α → Proc B Reply ε β) :
  (p >>= f).unbuffered = p.unbuffered >>= fun a => (f a).unbuffered
  := by
  have key : ((p.run >>= ExceptT.bindCont f).through unbufferedLayer () >>= fun x => .ret x.1) =
      (p.run.through unbufferedLayer () >>= fun x => .ret x.1) >>=
        ExceptT.bindCont fun a => (f a).unbuffered := by
    rw [Prog.through_bind, Prog.bind_assoc, Prog.bind_assoc]
    congr
    funext x
    obtain ⟨r, ⟨⟩⟩ := x
    cases r with
    | ok a => rfl
    | error e => rfl
  exact key

/-- A procedure returns the same without a buffer. -/
theorem Returns.unbuffered
    {closed : Bool} {p : Proc B Reply ε α} {w w' : Endpoint H B} {a : α}
    (h : Returns answer closed p w a w') :
  Returns (keepsBuffer answer) closed p.unbuffered w a w'
  := reaches_unbufferedLayer (keepsBuffer answer) h

theorem Reads.unbuffered
    {p : Proc B Reply ε α} {bs : List B} {a : α} (h : Reads answer p bs a) :
  Reads (keepsBuffer answer) p.unbuffered bs a
  := fun closed w rest hw => (h closed w rest hw).unbuffered

end Proc

/-! ### Procedures that wait -/

namespace Proc

/-- Before anything else the procedure reads. -/
def Waits (p : Proc B Reply ε α) : Prop :=
  ∀ (H : Type) (answer : H → (x : X) → Option (Reply x × H)) (w : Endpoint H B), ∃ k,
    Prog.Reaches (Prog.Answers (Endpoint.answer answer false)) (p.run, w) (.call .read k, w)

theorem waits_attempt_read
    (e : ε) :
  Waits (attempt (read e) : Proc B Reply ε (Except ε B))
  := fun _ _ _ => ⟨_, .refl⟩

theorem Waits.bind
    {p : Proc B Reply ε α} (hp : Waits p) (f : α → Proc B Reply ε β) :
  Waits (p >>= f)
  := by
  intro H answer w
  obtain ⟨k, hk⟩ := hp H answer w
  exact ⟨_, Prog.Reaches.bind hk (ExceptT.bindCont f)⟩

theorem Waits.unbuffered
    {p : Proc B Reply ε α} (hp : Waits p) :
  Waits p.unbuffered
  := by
  intro H answer w
  obtain ⟨k, hk⟩ := hp H (fun h x => answer h (.host x)) w
  exact ⟨_, reaches_unbufferedLayer answer hk⟩

theorem waits_loop
    {S A : Type} {body : S → Proc B Reply ε (S ⊕ A)} {s : S} (h : Waits (body s)) :
  Waits (loop body s)
  := by
  intro H answer w
  obtain ⟨k, hk⟩ := h H answer w
  have hround := Prog.Reaches.bind hk fun r => pure (next r)
  exact ⟨_, ReflTransGen.head .loop (Prog.Reaches.bind hround _)⟩

end Proc

namespace Duplex

variable {answer : H → (x : X) → Option (Reply x × H)}
  {answer' : H' → (y : Y) → Option (Reply' y × H')}

/-! ### Parties without a buffer -/

/-- A party that does without a buffer does what the party does. -/
def Unbuffered (x : Party B Reply H α) (y : Party B (BufferedReply Reply) H α) : Prop :=
  y.1 = (x.1.through Proc.unbufferedLayer () >>= fun z => .ret z.1) ∧ y.2 = x.2

theorem Unbuffered.moves
    {x x' : Party B Reply H α} {y : Party B (BufferedReply Reply) H α}
    (hmoves : Moves answer x x') (h : Unbuffered x y) :
  ∃ y', ReflTransGen (Moves (keepsBuffer answer)) y y' ∧ Unbuffered x' y'
  := by
  obtain ⟨p, w⟩ := y
  obtain ⟨rfl, rfl⟩ := h
  cases hmoves with
  | step hstep =>
      have hreaches := reaches_unbufferedLayer (keepsBuffer answer) (.single hstep)
      exact ⟨(_, x'.2), ReflTransGen.mono (fun _ _ h => .step h) _ _ hreaches, rfl, rfl⟩
  | spill hbuffer hbs => exact ⟨_, .single (.spill (x := (_, x.2)) hbuffer hbs), rfl, rfl⟩

/-- Whatever two parties come to, they come to when they do without buffers. -/
theorem reaches_unbuffered
    {s s' : Parties B Reply Reply' H H' α β}
    {t : Parties B (BufferedReply Reply) (BufferedReply Reply') H H' α β}
    (hreaches : Reaches answer answer' s s') (hleft : Unbuffered s.1 t.1)
    (hright : Unbuffered s.2 t.2) :
  ∃ t', Reaches (keepsBuffer answer) (keepsBuffer answer') t t' ∧ Unbuffered s'.1 t'.1 ∧
    Unbuffered s'.2 t'.2
  := by
  induction hreaches with
  | refl => exact ⟨t, .refl, hleft, hright⟩
  | tail _ hstep ih =>
      obtain ⟨⟨y, z⟩, ht, hy, hz⟩ := ih
      cases hstep with
      | left hmoves =>
          obtain ⟨y', hy', hstands⟩ := hy.moves hmoves
          exact ⟨(y', z), ht.trans (reaches_moves_left z hy'), hstands, hz⟩
      | right hmoves =>
          obtain ⟨z', hz', hstands⟩ := hz.moves hmoves
          exact ⟨(y, z'), ht.trans (reaches_moves_left y hz').swap, hy, hstands⟩
      | toRight hsent hbs =>
          obtain ⟨p, w⟩ := y
          obtain ⟨q, v⟩ := z
          obtain ⟨rfl, rfl⟩ := hy
          obtain ⟨rfl, rfl⟩ := hz
          exact ⟨_, ht.tail (.toRight hsent hbs), ⟨rfl, rfl⟩, ⟨rfl, rfl⟩⟩
      | toLeft hsent hbs =>
          obtain ⟨p, w⟩ := y
          obtain ⟨q, v⟩ := z
          obtain ⟨rfl, rfl⟩ := hy
          obtain ⟨rfl, rfl⟩ := hz
          exact ⟨_, ht.tail (.toLeft hsent hbs), ⟨rfl, rfl⟩, ⟨rfl, rfl⟩⟩

/-- When two procedures come to an end, they come to the same end without buffers. -/
theorem exists_unbuffered
    {p : Proc B Reply ε α} {q : Proc B Reply' ε' β} {h : H} {h' : H'}
    {f : Party B Reply H (Except ε α) × Party B Reply' H' (Except ε' β)} {a : Except ε α}
    {b : Except ε' β} (hf : Reaches answer answer' (talk p h q h') f) (hover : Over f a b) :
  ∃ g, Reaches (keepsBuffer answer) (keepsBuffer answer') (talk p.unbuffered h q.unbuffered h') g ∧
    Over g a b ∧ g.1.2.host = f.1.2.host ∧ g.2.2.host = f.2.2.host
  := by
  obtain ⟨⟨⟨x, v⟩, ⟨y, w⟩⟩, hg, ⟨hx, rfl⟩, ⟨hy, rfl⟩⟩ :=
    reaches_unbuffered (t := talk p.unbuffered h q.unbuffered h') hf ⟨rfl, rfl⟩ ⟨rfl, rfl⟩
  refine ⟨_, hg, ⟨?_, ?_, hover.leftSide, hover.rightSide⟩, rfl, rfl⟩
  · dsimp only at hx ⊢
    rw [hx, hover.left]
    rfl
  · dsimp only at hy ⊢
    rw [hy, hover.right]
    rfl

/-! ### Giving up a buffer -/

variable {s t u f : Parties B (BufferedReply Reply) (BufferedReply Reply') H H' α β}

/-- A party gives up its buffer, which holds some of what has arrived. -/
inductive GivesUp :
    Party B (BufferedReply Reply) H α → Party B (BufferedReply Reply) H α → Prop where
  | giveUp {k : ℕ → Prog (Answer (B := B) (BufferedReply Reply)) α} {w : Endpoint H B}
      {held rest : List B} (hinput : w.input = held ++ rest) :
      GivesUp (.call (.host .giveUp) k, w) (k held.length, { w with input := rest })

/-- What happens to two parties that may read through buffers. -/
inductive BufferedStep (answer : H → (x : X) → Option (Reply x × H))
    (answer' : H' → (y : Y) → Option (Reply' y × H')) :
    Parties B (BufferedReply Reply) (BufferedReply Reply') H H' α β →
      Parties B (BufferedReply Reply) (BufferedReply Reply') H H' α β → Prop where
  | keep {s t : Parties B (BufferedReply Reply) (BufferedReply Reply') H H' α β}
      (h : Step (keepsBuffer answer) (keepsBuffer answer') s t) : BufferedStep answer answer' s t
  | left {x x' : Party B (BufferedReply Reply) H α} {y : Party B (BufferedReply Reply') H' β}
      (h : GivesUp x x') : BufferedStep answer answer' (x, y) (x', y)
  | right {x : Party B (BufferedReply Reply) H α} {y y' : Party B (BufferedReply Reply') H' β}
      (h : GivesUp y y') : BufferedStep answer answer' (x, y) (x, y')

/-- The parties may come from one configuration to the other, reading through buffers. -/
def BufferedReaches (answer : H → (x : X) → Option (Reply x × H))
    (answer' : H' → (y : Y) → Option (Reply' y × H')) :
    Parties B (BufferedReply Reply) (BufferedReply Reply') H H' α β →
      Parties B (BufferedReply Reply) (BufferedReply Reply') H H' α β → Prop :=
  ReflTransGen (BufferedStep answer answer')

/-- The party is about to give up its buffer. -/
def Party.GivingUp (x : Party B (BufferedReply Reply) H α) : Prop :=
  ∃ k, x.1 = .call (.host .giveUp) k

/-- Nothing happens unless a buffer is given up. -/
def Still (answer : H → (x : X) → Option (Reply x × H))
    (answer' : H' → (y : Y) → Option (Reply' y × H'))
    (s : Parties B (BufferedReply Reply) (BufferedReply Reply') H H' α β) : Prop :=
  ∀ t, ¬ Step (keepsBuffer answer) (keepsBuffer answer') s t

/-- The parties come to `f`. Whenever a buffer is given up on the way, everything else waits for
it, and there is nothing in the buffer. -/
inductive ComesTo (answer : H → (x : X) → Option (Reply x × H))
    (answer' : H' → (y : Y) → Option (Reply' y × H'))
    (f : Parties B (BufferedReply Reply) (BufferedReply Reply') H H' α β) :
    Parties B (BufferedReply Reply) (BufferedReply Reply') H H' α β → Prop where
  | ends {s : Parties B (BufferedReply Reply) (BufferedReply Reply') H H' α β}
      (h : Reaches (keepsBuffer answer) (keepsBuffer answer') s f) (hstill : Still answer answer' f)
      (hleft : ¬ f.1.GivingUp) (hright : ¬ f.2.GivingUp) : ComesTo answer answer' f s
  | left {s : Parties B (BufferedReply Reply) (BufferedReply Reply') H H' α β}
      {k : ℕ → Prog (Answer (B := B) (BufferedReply Reply)) α} {w : Endpoint H B}
      {y : Party B (BufferedReply Reply') H' β}
      (h : Reaches (keepsBuffer answer) (keepsBuffer answer') s ((.call (.host .giveUp) k, w), y))
      (hstill : Still answer answer' ((.call (.host .giveUp) k, w), y)) (hempty : w.input = [])
      (hright : ¬ y.GivingUp) (hnext : ComesTo answer answer' f ((k 0, w), y)) :
      ComesTo answer answer' f s
  | right {s : Parties B (BufferedReply Reply) (BufferedReply Reply') H H' α β}
      {k : ℕ → Prog (Answer (B := B) (BufferedReply Reply')) β} {w : Endpoint H' B}
      {x : Party B (BufferedReply Reply) H α}
      (h : Reaches (keepsBuffer answer) (keepsBuffer answer') s (x, (.call (.host .giveUp) k, w)))
      (hstill : Still answer answer' (x, (.call (.host .giveUp) k, w))) (hempty : w.input = [])
      (hleft : ¬ x.GivingUp) (hnext : ComesTo answer answer' f (x, (k 0, w))) :
      ComesTo answer answer' f s

theorem Still.swap
    (h : Still answer answer' s) :
  Still answer' answer s.swap
  := fun t ht => h t.swap ht.swap

theorem ComesTo.swap
    (h : ComesTo answer answer' f s) :
  ComesTo answer' answer f.swap s.swap
  := by
  induction h with
  | ends h hstill hleft hright => exact .ends h.swap hstill.swap hright hleft
  | left h hstill hempty hright _ ih => exact .right h.swap hstill.swap hempty hright ih
  | right h hstill hempty hleft _ ih => exact .left h.swap hstill.swap hempty hleft ih

theorem ComesTo.head
    (hreaches : Reaches (keepsBuffer answer) (keepsBuffer answer') s t)
    (h : ComesTo answer answer' f t) :
  ComesTo answer answer' f s
  := by
  cases h with
  | ends h hstill hleft hright => exact .ends (hreaches.trans h) hstill hleft hright
  | left h hstill hempty hright hnext => exact .left (hreaches.trans h) hstill hempty hright hnext
  | right h hstill hempty hleft hnext => exact .right (hreaches.trans h) hstill hempty hleft hnext

/-- When nothing more happens in some run, every run leads there. -/
theorem Still.reaches
    (hstill : Still answer answer' f)
    (hf : Reaches (keepsBuffer answer) (keepsBuffer answer') s f)
    (ht : Reaches (keepsBuffer answer) (keepsBuffer answer') s t) :
  Reaches (keepsBuffer answer) (keepsBuffer answer') t f
  := by
  obtain ⟨d, hfd, htd⟩ := hf.join ht
  rcases ReflTransGen.cases_head hfd with rfl | ⟨u, hu, -⟩
  · exact htd
  · exact absurd hu (hstill u)

/-- What comes to the same configuration comes to the same end. -/
theorem ComesTo.of_join
    (h : ComesTo answer answer' f s)
    (ht : Reaches (keepsBuffer answer) (keepsBuffer answer') t u)
    (hs : Reaches (keepsBuffer answer) (keepsBuffer answer') s u) :
  ComesTo answer answer' f t
  := by
  cases h with
  | ends h hstill hleft hright => exact .ends (ht.trans (hstill.reaches h hs)) hstill hleft hright
  | left h hstill hempty hright hnext =>
      exact .left (ht.trans (hstill.reaches h hs)) hstill hempty hright hnext
  | right h hstill hempty hleft hnext =>
      exact .right (ht.trans (hstill.reaches h hs)) hstill hempty hleft hnext

/-- While a party waits to give up its buffer, it only receives. The other things happen in the same
way when it has already given up the buffer. -/
theorem reaches_givingUp
    {k : ℕ → Prog (Answer (B := B) (BufferedReply Reply)) α} {w : Endpoint H B}
    {y : Party B (BufferedReply Reply') H' β}
    (h : Reaches (keepsBuffer answer) (keepsBuffer answer') ((.call (.host .giveUp) k, w), y) t) :
  ∃ w' y' bs, t = ((.call (.host .giveUp) k, w'), y') ∧ w'.input = w.input ++ bs ∧
    ∀ p : Prog (Answer (B := B) (BufferedReply Reply)) α,
      Reaches (keepsBuffer answer) (keepsBuffer answer') ((p, w), y) ((p, w'), y')
  := by
  induction h with
  | refl => exact ⟨w, y, [], rfl, (List.append_nil _).symm, fun _ => .refl⟩
  | tail _ hstep ih =>
      obtain ⟨w', y', bs, rfl, hinput, hreaches⟩ := ih
      cases hstep with
      | left hmoves =>
          cases hmoves with
          | step hstep =>
              cases hstep with
              | call h => cases h
          | spill hbuffer hbs =>
              exact ⟨_, y', bs, rfl, hinput, fun p =>
                (hreaches p).tail (.left (.spill (x := (p, w')) hbuffer hbs))⟩
      | right hmoves =>
          exact ⟨w', _, bs, rfl, hinput, fun p => (hreaches p).tail (.right hmoves)⟩
      | toRight hsent hbs =>
          exact ⟨_, _, bs, rfl, hinput, fun p =>
            (hreaches p).tail (.toRight (x := (p, w')) hsent hbs)⟩
      | @toLeft _ _ cs rest hsent hcs =>
          refine ⟨_, _, bs ++ cs, rfl, ?_, fun p =>
            (hreaches p).tail (.toLeft (x := (p, w')) hsent hcs)⟩
          simp only [hinput, List.append_assoc]

/-- Wherever a party gives up its buffer, nothing has arrived that was not read. -/
theorem ComesTo.empty_left
    {k : ℕ → Prog (Answer (B := B) (BufferedReply Reply)) α} {w : Endpoint H B}
    {y : Party B (BufferedReply Reply') H' β}
    (h : ComesTo answer answer' f ((.call (.host .giveUp) k, w), y)) :
  w.input = [] ∧ ∃ w' y', ComesTo answer answer' f ((k 0, w'), y') ∧
    Reaches (keepsBuffer answer) (keepsBuffer answer') ((k 0, w), y) ((k 0, w'), y')
  := by
  cases h with
  | ends h hstill hleft hright =>
      obtain ⟨w', y', bs, rfl, -, -⟩ := reaches_givingUp h
      exact absurd ⟨k, rfl⟩ hleft
  | left h hstill hempty hright hnext =>
      obtain ⟨w', y', bs, heq, hinput, hreaches⟩ := reaches_givingUp h
      cases heq
      rw [hinput, List.append_eq_nil_iff] at hempty
      exact ⟨hempty.1, _, _, hnext, hreaches _⟩
  | right h hstill hempty hleft hnext =>
      obtain ⟨w', y', bs, heq, -, -⟩ := reaches_givingUp h
      cases heq
      exact absurd ⟨k, rfl⟩ hleft

/-- What is given up is empty. -/
theorem ComesTo.gives_left
    {x x' : Party B (BufferedReply Reply) H α} {y : Party B (BufferedReply Reply') H' β}
    (h : ComesTo answer answer' f (x, y)) (hgives : GivesUp x x') :
  ∃ (k : ℕ → Prog (Answer (B := B) (BufferedReply Reply)) α) (w : Endpoint H B),
    x = (.call (.host .giveUp) k, w) ∧ x' = (k 0, w)
  := by
  obtain @⟨k, w, held, rest, hinput⟩ := hgives
  refine ⟨k, w, rfl, ?_⟩
  have hempty := h.empty_left.1
  rw [hempty, eq_comm, List.append_eq_nil_iff] at hinput
  obtain ⟨rfl, rfl⟩ := hinput
  rw [List.length_nil, ← hempty]

theorem ComesTo.step_left
    {x x' : Party B (BufferedReply Reply) H α} {y : Party B (BufferedReply Reply') H' β}
    (h : ComesTo answer answer' f (x, y)) (hgives : GivesUp x x') :
  ComesTo answer answer' f (x', y)
  := by
  obtain ⟨k, w, rfl, rfl⟩ := h.gives_left hgives
  obtain ⟨-, w', y', hnext, hreaches⟩ := h.empty_left
  exact hnext.of_join hreaches .refl

/-- Whatever happens, the parties come to the same end. -/
theorem ComesTo.step
    (h : ComesTo answer answer' f s) (hstep : BufferedStep answer answer' s t) :
  ComesTo answer answer' f t
  := by
  cases hstep with
  | keep hstep => exact h.of_join .refl (.single hstep)
  | left hgives => exact h.step_left hgives
  | right hgives => exact (h.swap.step_left hgives).swap

theorem ComesTo.run
    (h : ComesTo answer answer' f s) (hrun : BufferedReaches answer answer' s t) :
  ComesTo answer answer' f t
  := by
  induction hrun with
  | refl => exact h
  | tail _ hstep ih => exact ih.step hstep

theorem BufferedReaches.of_keeps
    (h : Reaches (keepsBuffer answer) (keepsBuffer answer') s t) :
  BufferedReaches answer answer' s t
  := ReflTransGen.mono (fun _ _ h => .keep h) _ _ h

theorem ComesTo.reaches
    (h : ComesTo answer answer' f s) :
  BufferedReaches answer answer' s f
  := by
  induction h with
  | ends h => exact .of_keeps h
  | @left s k w y h hstill hempty hright hnext ih =>
      have hgives : GivesUp (Prog.call (.host .giveUp) k, w) (k 0, w) :=
        .giveUp (List.nil_append w.input).symm
      exact ((BufferedReaches.of_keeps h).tail (.left hgives)).trans ih
  | @right s k w x h hstill hempty hleft hnext ih =>
      have hgives : GivesUp (Prog.call (.host .giveUp) k, w) (k 0, w) :=
        .giveUp (List.nil_append w.input).symm
      exact ((BufferedReaches.of_keeps h).tail (.right hgives)).trans ih

/-- No run from what comes to a configuration in which nothing more happens goes on forever, as long
as no buffer is given up. -/
theorem Still.acc
    (hstill : Still answer answer' f)
    (hf : Reaches (keepsBuffer answer) (keepsBuffer answer') s f) :
  Acc (fun u t => Step (keepsBuffer answer) (keepsBuffer answer') t u) s
  := by
  have hstep : (fun u t : Parties B (BufferedReply Reply) (BufferedReply Reply') H H' α β =>
      Step (keepsBuffer answer) (keepsBuffer answer') t u) =
      fun u t => Works (keepsBuffer answer) (keepsBuffer answer') t u ∨ Carries t u := by
    funext u t
    exact propext step_iff
  rw [hstep]
  apply (commuting _ _).acc_of_reaches (f := f)
  · exact Subrelation.wf distance_lt (measure distance).wf
  · exact fun x hx => hstill x (step_iff.mpr hx)
  · exact ReflTransGen.mono (fun _ _ h => step_iff.mp h) _ _ hf

/-- No run goes on forever when none does after a buffer was given up. -/
theorem Still.acc_buffered
    (hstill : Still answer answer' f)
    (hf : Reaches (keepsBuffer answer) (keepsBuffer answer') s f)
    (hleft : ∀ x x' y, Reaches (keepsBuffer answer) (keepsBuffer answer') (x, y) f →
      GivesUp x x' → Acc (fun u t => BufferedStep answer answer' t u) (x', y))
    (hright : ∀ x y y', Reaches (keepsBuffer answer) (keepsBuffer answer') (x, y) f →
      GivesUp y y' → Acc (fun u t => BufferedStep answer answer' t u) (x, y')) :
  Acc (fun u t => BufferedStep answer answer' t u) s
  := by
  induction hstill.acc hf with
  | intro s _ ih =>
      constructor
      intro t ht
      cases ht with
      | keep hstep => exact ih t hstep (hstill.reaches hf (.single hstep))
      | left hgives => exact hleft _ _ _ hf hgives
      | right hgives => exact hright _ _ _ hf hgives

/-- A party that gives up its buffer still waits to do so when nothing else happens any more. -/
theorem GivesUp.exists_left
    {x x' : Party B (BufferedReply Reply) H α} {y : Party B (BufferedReply Reply') H' β}
    (hgives : GivesUp x x')
    (h : Reaches (keepsBuffer answer) (keepsBuffer answer') (x, y) f) :
  f.1.GivingUp
  := by
  obtain @⟨k, w, held, rest, hinput⟩ := hgives
  obtain ⟨w', y', bs, rfl, -, -⟩ := reaches_givingUp h
  exact ⟨k, rfl⟩

/-- No run goes on forever. -/
theorem ComesTo.acc
    (h : ComesTo answer answer' f s) :
  Acc (fun u t => BufferedStep answer answer' t u) s
  := by
  -- by the buffers that are still to be given up, and then by what happens before the next one
  suffices key : ∀ t u, Reaches (keepsBuffer answer) (keepsBuffer answer') t u →
      Reaches (keepsBuffer answer) (keepsBuffer answer') s u →
      Acc (fun u t => BufferedStep answer answer' t u) t from key s s .refl .refl
  induction h with
  | ends h hstill hleft hright =>
      intro t u ht hs
      apply hstill.acc_buffered (ht.trans (hstill.reaches h hs))
      · intro x x' y hx hgives
        exact absurd (hgives.exists_left hx) hleft
      · intro x y y' hx hgives
        exact absurd (hgives.exists_left hx.swap) hright
  | left h hstill hempty hright hnext ih =>
      intro t u ht hs
      apply hstill.acc_buffered (ht.trans (hstill.reaches h hs))
      · intro x x' y hx hgives
        obtain ⟨k, w, rfl, rfl⟩ := (ComesTo.left hx hstill hempty hright hnext).gives_left hgives
        obtain ⟨w', y', bs, heq, -, hreaches⟩ := reaches_givingUp hx
        cases heq
        exact ih _ _ (hreaches _) .refl
      · intro x y y' hx hgives
        exact absurd (hgives.exists_left hx.swap) hright
  | right h hstill hempty hleft hnext ih =>
      intro t u ht hs
      apply hstill.acc_buffered (ht.trans (hstill.reaches h hs))
      · intro x x' y hx hgives
        exact absurd (hgives.exists_left hx) hleft
      · intro x y y' hx hgives
        have hcomes := (ComesTo.right hx hstill hempty hleft hnext).swap
        obtain ⟨k, w, rfl, rfl⟩ := hcomes.gives_left hgives
        obtain ⟨w', x', bs, heq, -, hreaches⟩ := reaches_givingUp hx.swap
        cases heq
        exact ih _ _ (hreaches _).swap .refl

/-- Whatever happens, the parties come to `f` at some time, and no buffer holds anything when it is
given up. -/
structure MustCome (answer : H → (x : X) → Option (Reply x × H))
    (answer' : H' → (y : Y) → Option (Reply' y × H'))
    (s f : Parties B (BufferedReply Reply) (BufferedReply Reply') H H' α β) : Prop where
  /-- No run goes on forever. -/
  finite : Acc (fun u t => BufferedStep answer answer' t u) s
  /-- No run is stuck anywhere else. -/
  reaches : ∀ t, BufferedReaches answer answer' s t → BufferedReaches answer answer' t f
  /-- Nothing has arrived that is lost. -/
  lossless : ∀ t, BufferedReaches answer answer' s t →
    (t.1.GivingUp → t.1.2.input = []) ∧ (t.2.GivingUp → t.2.2.input = [])

theorem ComesTo.mustCome
    (h : ComesTo answer answer' f s) :
  MustCome answer answer' s f
  where
  finite := h.acc
  reaches := fun t ht => (h.run ht).reaches
  lossless := by
    intro t ht
    have hcomes := h.run ht
    obtain ⟨⟨p, w⟩, ⟨q, v⟩⟩ := t
    constructor
    · rintro ⟨k, hk⟩
      cases hk
      exact hcomes.empty_left.1
    · rintro ⟨k, hk⟩
      cases hk
      exact hcomes.swap.empty_left.1

/-- Two parties that return without giving up a buffer come to their end. -/
theorem comesTo_of_over
    {a : α} {b : β} (h : Reaches (keepsBuffer answer) (keepsBuffer answer') s f)
    (hover : Over f a b) :
  ComesTo answer answer' f s
  := by
  refine .ends h (fun _ => hover.not_step) ?_ ?_
  · rintro ⟨k, hk⟩
    cases hover.left.symm.trans hk
  · rintro ⟨k, hk⟩
    cases hover.right.symm.trans hk

/-! ### Two procedures -/

/-- Nothing is on the way to or from the party, and it waits. -/
inductive Idle : Party B (BufferedReply Reply) H α → Prop where
  | reading {k : Option B → Prog (Answer (B := B) (BufferedReply Reply)) α} {h : H} :
      Idle (.call .read k, ⟨h, [], [], []⟩)
  | givingUp {k : ℕ → Prog (Answer (B := B) (BufferedReply Reply)) α} {h : H} :
      Idle (.call (.host .giveUp) k, ⟨h, [], [], []⟩)

theorem Idle.not_moves
    {x y : Party B (BufferedReply Reply) H α} (h : Idle x) :
  ¬ Moves (keepsBuffer answer) x y
  := by
  intro hmoves
  cases h with
  | reading =>
      cases hmoves with
      | step hstep =>
          cases hstep with
          | call h => cases h
      | spill hbuffer hbs => exact hbs (List.append_eq_nil_iff.mp hbuffer.symm).1
  | givingUp =>
      cases hmoves with
      | step hstep =>
          cases hstep with
          | call h => cases h
      | spill hbuffer hbs => exact hbs (List.append_eq_nil_iff.mp hbuffer.symm).1

theorem Idle.sent
    {x : Party B (BufferedReply Reply) H α} (h : Idle x) :
  x.2.sent = []
  := by
  cases h with
  | reading => rfl
  | givingUp => rfl

/-- Two parties that wait for each other. -/
theorem still_of_idle
    {x : Party B (BufferedReply Reply) H α} {y : Party B (BufferedReply Reply') H' β}
    (hx : Idle x) (hy : Idle y) :
  Still answer answer' (x, y)
  := by
  intro t ht
  cases ht with
  | left hmoves => exact hx.not_moves hmoves
  | right hmoves => exact hy.not_moves hmoves
  | toRight hsent hbs => exact hbs (List.append_eq_nil_iff.mp (hx.sent.symm.trans hsent).symm).1
  | toLeft hsent hbs => exact hbs (List.append_eq_nil_iff.mp (hy.sent.symm.trans hsent).symm).1

/-- The party on the right gives up its buffer while the other one waits. -/
theorem comesTo_giveUp_right
    {p : Proc B (BufferedReply Reply) ε α} {g : ℕ → Proc B (BufferedReply Reply') ε' β} {h : H}
    {h' : H'} {f : Parties B (BufferedReply Reply) (BufferedReply Reply') H H' (Except ε α)
      (Except ε' β)} (hwaits : p.Waits) (hnext : ComesTo answer answer' f (talk p h (g 0) h')) :
  ComesTo answer answer' f (talk p h (Proc.giveUp >>= g) h')
  := by
  obtain ⟨k, hk⟩ := hwaits H (keepsBuffer answer) ⟨h, [], [], []⟩
  refine .right (k := fun n => (g n).run) (reaches_left _ hk) ?_ rfl ?_ ?_
  · exact still_of_idle .reading .givingUp
  · rintro ⟨k', hk'⟩
    cases hk'
  · exact hnext.of_join .refl (reaches_left _ hk)

/-- The party on the left gives up its buffer while the other one waits. -/
theorem comesTo_giveUp_left
    {q : Proc B (BufferedReply Reply') ε' β} {g : ℕ → Proc B (BufferedReply Reply) ε α} {h : H}
    {h' : H'} {f : Parties B (BufferedReply Reply) (BufferedReply Reply') H H' (Except ε α)
      (Except ε' β)} (hwaits : q.Waits) (hnext : ComesTo answer answer' f (talk (g 0) h q h')) :
  ComesTo answer answer' f (talk (Proc.giveUp >>= g) h q h')
  := by
  have hswap : ComesTo answer' answer f.swap (talk q h' (g 0) h) := hnext.swap
  exact (comesTo_giveUp_right hwaits hswap).swap

/-! ### One party -/

section Lost

variable {closed : Bool} {n : ℕ}

/-- The environment of an endpoint on its own. The buffer that it gives up holds `n` symbols of the
input, if there are so many. -/
def losesBuffer (answer : H → (x : X) → Option (Reply x × H)) (closed : Bool) (n : ℕ)
    (w : Endpoint H B) :
    (c : Act B (Buffered X)) → Option (Answer (B := B) (BufferedReply Reply) c × Endpoint H B)
  | .host .giveUp => some ((w.input.take n).length, { w with input := w.input.drop n })
  | c => Endpoint.answer (keepsBuffer answer) closed w c

/-- What is not given up is answered as it was. -/
theorem step_losesBuffer
    {x y : Prog (Answer (B := B) (BufferedReply Reply)) α × Endpoint H B}
    (h : Prog.Step (Prog.Answers (Endpoint.answer (keepsBuffer answer) closed)) x y) :
  Prog.Step (Prog.Answers (losesBuffer answer closed n)) x y
  := by
  cases h with
  | @call c k r w w' h =>
      apply Prog.Step.call
      cases c with
      | host x =>
          cases x with
          | host x => exact h
          | giveUp => cases h
      | _ => exact h
  | loop => exact .loop

/-- A step is one of an endpoint that keeps its buffer, or the buffer is given up. -/
theorem step_or_givesUp
    {x y : Prog (Answer (B := B) (BufferedReply Reply)) α × Endpoint H B}
    (h : Prog.Step (Prog.Answers (losesBuffer answer closed n)) x y) :
  Prog.Step (Prog.Answers (Endpoint.answer (keepsBuffer answer) closed)) x y ∨ GivesUp x y
  := by
  cases h with
  | @call c k r w w' h =>
      cases c with
      | host x =>
          cases x with
          | host x => exact Or.inl (.call h)
          | giveUp =>
              right
              cases h
              exact .giveUp (List.take_append_drop n w.input).symm
      | _ => exact Or.inl (.call h)
  | loop => exact Or.inl .loop

/-- What an endpoint that keeps its buffer comes to, it comes to. -/
theorem ends_losesBuffer
    {p : Prog (Answer (B := B) (BufferedReply Reply)) α} {w w' : Endpoint H B} {a : α}
    (h : Prog.Ends (Prog.Answers (Endpoint.answer (keepsBuffer answer) closed)) p w a w') :
  Prog.Ends (Prog.Answers (losesBuffer answer closed n)) p w a w'
  := Relation.ReflTransGen.mono (fun _ _ => step_losesBuffer) _ _ h

/-- The buffer is given up with what it holds. -/
theorem ends_giveUp
    (n : ℕ) (w : Endpoint H B) :
  Prog.Ends (Prog.Answers (losesBuffer answer closed n))
    (Proc.giveUp : Proc B (BufferedReply Reply) ε ℕ).run w (.ok (w.input.take n).length)
    { w with input := w.input.drop n }
  := by
  apply Prog.Ends.bind (Prog.Ends.perform rfl)
  apply Prog.Ends.ret

end Lost

end Duplex
