import RsyncRs.Program.Duplex
import RsyncRs.Program.Frame

/-!
# Questions and answers

Two procedures at the two ends of a pair of queues, as one of them asks the other. Between two
questions nothing is on the way: what has been written is sent, and what has been sent is read. A
procedure that only asks its host does not touch the queues.
-/

variable {B X Y H H' : Type} {Reply : X → Type} {Reply' : Y → Type} {ε ε' α β γ δ S A : Type}
  {answer : H → (x : X) → Option (Reply x × H)} {answer' : H' → (y : Y) → Option (Reply' y × H')}

/-! ### Procedures that only ask their host -/

/-- The only commands of the program are those to its host. -/
def Prog.OnlyHosts : {α : Type} → Prog (Answer (B := B) Reply) α → Prop
  | _, .ret _ => True
  | _, .call (.host _) k => ∀ r, Prog.OnlyHosts (k r)
  | _, .call _ _ => False
  | _, .loop _ _ _ => False

theorem Prog.OnlyHosts.bind
    {p : Prog (Answer (B := B) Reply) α} {f : α → Prog (Answer (B := B) Reply) β}
    (hp : Prog.OnlyHosts p) (hf : ∀ a, Prog.OnlyHosts (f a)) :
  Prog.OnlyHosts (p >>= f)
  := by
  induction p with
  | ret a => apply hf
  | call c k ih =>
      cases c with
      | host x =>
          intro r
          apply ih r (hp r) hf
      | read => cases hp
      | write bs => cases hp
      | flush => cases hp
  | loop body s k => cases hp

/-- A run of a program that only asks its host leaves everything but the host, and is a run from
every endpoint with the same host. -/
theorem Prog.OnlyHosts.frame
    {closed : Bool} {p : Prog (Answer (B := B) Reply) α} {w w' : Endpoint H B} {a : α}
    (hp : Prog.OnlyHosts p)
    (h : Prog.Ends (Prog.Answers (Endpoint.answer answer closed)) p w a w') :
  w' = { w with host := w'.host } ∧
    ∀ closed (v : Endpoint H B), v.host = w.host →
      Prog.Ends (Prog.Answers (Endpoint.answer answer closed)) p v a { v with host := w'.host }
  := by
  induction p generalizing w with
  | ret b =>
      obtain ⟨rfl, rfl⟩ := Prog.Ends.of_ret h
      apply And.intro rfl
      intro closed v hv
      rw [← hv]
      apply Prog.Ends.ret
  | loop body s k => cases hp
  | call c k ih =>
      cases c with
      | read => cases hp
      | write bs => cases hp
      | flush => cases hp
      | host x =>
          rcases Relation.ReflTransGen.cases_head h with he | ⟨y, hy, hend⟩
          · cases he
          · cases hy with
            | @call _ _ r _ w₁ hr =>
                simp only [Prog.Answers, Endpoint.answer] at hr
                split at hr
                · next r' h' hanswer =>
                  cases hr
                  obtain ⟨hw', hv'⟩ := ih r (hp r) hend
                  constructor
                  · rw [hw']
                  · intro closed v hv
                    have hcall : Prog.Answers (Endpoint.answer answer closed) v (.host x) r
                        { v with host := h' } := by
                      simp only [Prog.Answers, Endpoint.answer, hv, hanswer]
                    exact Prog.Ends.call hcall (hv' closed { v with host := h' } rfl)
                · cases hr

namespace Proc

/-- The only commands of the procedure are those to its host. -/
def OnlyHosts (p : Proc B Reply ε α) : Prop :=
  Prog.OnlyHosts p.run

theorem onlyHosts_pure
    (a : α) :
  OnlyHosts (pure a : Proc B Reply ε α)
  := trivial

theorem onlyHosts_throw
    (e : ε) :
  OnlyHosts (throw e : Proc B Reply ε α)
  := trivial

theorem onlyHosts_host
    (x : X) :
  OnlyHosts (host x : Proc B Reply ε (Reply x))
  := fun _ => trivial

theorem OnlyHosts.bind
    {p : Proc B Reply ε α} {f : α → Proc B Reply ε β} (hp : OnlyHosts p)
    (hf : ∀ a, OnlyHosts (f a)) :
  OnlyHosts (p >>= f)
  := by
  apply Prog.OnlyHosts.bind hp
  intro r
  cases r with
  | ok a => exact hf a
  | error e => trivial

theorem onlyHosts_forEach
    {f : S → A → Proc B Reply ε S} (hf : ∀ s a, OnlyHosts (f s a)) (s : S) (as : List A) :
  OnlyHosts (forEach f s as)
  := by
  induction as generalizing s with
  | nil => trivial
  | cons a as ih => exact (hf s a).bind fun s' => ih s'

/-- A procedure that only asks its host leaves the queues as they are, and does the same wherever
its host is in the same state. -/
theorem OnlyHosts.frame
    {closed : Bool} {p : Proc B Reply ε α} {w w' : Endpoint H B} {a : α} (hp : OnlyHosts p)
    (h : Returns answer closed p w a w') :
  w' = { w with host := w'.host } ∧
    ∀ closed (v : Endpoint H B), v.host = w.host →
      Returns answer closed p v a { v with host := w'.host }
  := Prog.OnlyHosts.frame hp h

/-- A round that goes on is followed by the next one. -/
theorem comes_loop_again
    {body : S → Proc B Reply ε (S ⊕ A)} {s s' : S} {w w' : Endpoint H B}
    (h : Returns answer false (body s) w (.inl s') w') :
  Comes answer (loop body s) w (loop body s') w'
  := by
  have hround : Prog.Ends (Prog.Answers (Endpoint.answer answer false)) (round body s) w (.inl s')
      w' := Prog.Ends.bind h (Prog.Ends.ret _ _)
  exact Relation.ReflTransGen.head Prog.Step.loop (Prog.Reaches.bind hround _)

/-! ### Procedures that do without a host -/

/-- What a procedure does when no host answers, it does with every host. -/
theorem Returns.anywhere
    {closed : Bool} {p : Proc B Reply ε α} {u : Unit} {i i' b b' s s' : List B} {a : α}
    (h : Returns (fun (_ : Unit) (_ : X) => none) closed p ⟨u, i, b, s⟩ a ⟨u, i', b', s'⟩)
    (answer : H → (x : X) → Option (Reply x × H)) (host : H) :
  Returns answer closed p ⟨host, i, b, s⟩ a ⟨host, i', b', s'⟩
  := by
  let place (w : Endpoint Unit B) : Endpoint H B := ⟨host, w.input, w.buffer, w.sent⟩
  apply Relation.ReflTransGen.lift (fun x => (x.1, place x.2)) ?_ _ _ h
  intro x y hxy
  cases hxy with
  | loop => exact Prog.Step.loop
  | @call c k r w w' hr =>
      apply Prog.Step.call
      obtain ⟨v, i, b, s⟩ := w
      cases c with
      | read =>
          cases i with
          | cons d ds =>
              cases hr
              rfl
          | nil =>
              cases closed with
              | false => cases hr
              | true =>
                  cases hr
                  rfl
      | write ds =>
          cases hr
          rfl
      | flush =>
          cases hr
          rfl
      | host x => cases hr

/-- What is carried when no host answers is carried from every host to every other one. -/
theorem Carries.anywhere
    {p : Proc B Reply ε α} {q : Proc B Reply ε β} {a : α} {b : β}
    (h : Carries (fun (_ : Unit) (_ : X) => none) p a q b)
    (answer : H → (x : X) → Option (Reply x × H)) (answer' : H' → (x : X) → Option (Reply x × H')) :
  ∃ bs, Writes answer p bs a ∧ Reads answer' q bs b
  := by
  obtain ⟨bs, hwrites, hreads⟩ := h
  refine ⟨bs, fun closed w => ?_, fun closed w rest hw => ?_⟩
  · exact (hwrites closed ⟨(), w.input, w.buffer, w.sent⟩).anywhere answer w.host
  · exact (hreads closed ⟨(), w.input, w.buffer, w.sent⟩ rest hw).anywhere answer' w.host

end Proc

/-! ### Two procedures -/

namespace Duplex

open Proc

theorem Moves.bind
    {x y : Party B Reply H α} (h : Moves answer x y) (f : α → Prog (Answer (B := B) Reply) β) :
  Moves answer (x.1 >>= f, x.2) (y.1 >>= f, y.2)
  := by
  cases h with
  | step h => exact .step (h.bind f)
  | spill hbuffer hbs => exact Moves.spill (x := (_, _)) hbuffer hbs

/-- The parties come as far when something follows their programs. -/
theorem Reaches.bind
    {s t : Party B Reply H α × Party B Reply' H' β} (h : Reaches answer answer' s t)
    (f : α → Prog (Answer (B := B) Reply) γ) (g : β → Prog (Answer (B := B) Reply') δ) :
  Reaches answer answer' ((s.1.1 >>= f, s.1.2), (s.2.1 >>= g, s.2.2))
    ((t.1.1 >>= f, t.1.2), (t.2.1 >>= g, t.2.2))
  := by
  apply Relation.ReflTransGen.lift
    (fun s : Party B Reply H α × Party B Reply' H' β =>
      ((s.1.1 >>= f, s.1.2), (s.2.1 >>= g, s.2.2))) ?_ _ _ h
  intro s t hst
  cases hst with
  | left h => exact .left (h.bind f)
  | right h => exact .right (h.bind g)
  | toRight hsent hbs => exact Step.toRight (x := (_, _)) (y := (_, _)) hsent hbs
  | toLeft hsent hbs => exact Step.toLeft (x := (_, _)) (y := (_, _)) hsent hbs

theorem Reaches.swap
    {s t : Party B Reply H α × Party B Reply' H' β} (h : Reaches answer answer' s t) :
  Reaches answer' answer s.swap t.swap
  := Relation.ReflTransGen.lift Prod.swap (fun _ _ h => h.swap) _ _ h

/-- Two procedures, each at its end of the queues, when nothing is on the way. -/
def talk (p : Proc B Reply ε α) (h : H) (q : Proc B Reply' ε' β) (h' : H') :
    Party B Reply H (Except ε α) × Party B Reply' H' (Except ε' β) :=
  ((p.run, ⟨h, [], [], []⟩), (q.run, ⟨h', [], [], []⟩))

variable {p p₁ : Proc B Reply ε α} {q q₁ q₂ : Proc B Reply' ε' β} {h k : H} {h' k' k'' : H'}

/-- The party on the right goes on by itself. -/
theorem reaches_talk_right
    {f : γ → Proc B Reply' ε' β} {x : Proc B Reply' ε' γ} {c : γ}
    (hx : Returns answer' false x ⟨h', [], [], []⟩ c ⟨k', [], [], []⟩) :
  Reaches answer answer' (talk p h (x >>= f) h') (talk p h (f c) k')
  := reaches_right _ (hx.comes f)

/-- What the party on the left writes is read by the party on the right. -/
theorem reaches_talk_reply
    {x : Proc B Reply ε γ} {y : Proc B Reply' ε' δ} {bs : List B} {c : γ} {d : δ}
    {f : γ → Proc B Reply ε α} {g : δ → Proc B Reply' ε' β} {k : H}
    (hsend : Returns answer false x ⟨h, [], [], []⟩ c ⟨k, [], [], bs⟩)
    (hread : Reads answer' y bs d) :
  Reaches answer answer' (talk (x >>= f) h (y >>= g) h') (talk (f c) k (g d) h')
  := by
  apply (reaches_left _ (hsend.comes f)).trans
  apply (reaches_toRight _ _).trans
  exact reaches_right _ ((hread false ⟨h', bs, [], []⟩ [] (List.append_nil _).symm).comes g)

/-- What the party on the right writes is read by the party on the left. -/
theorem reaches_talk_send
    {x : Proc B Reply' ε' γ} {y : Proc B Reply ε δ} {bs : List B} {c : γ} {d : δ}
    {f : δ → Proc B Reply ε α} {g : γ → Proc B Reply' ε' β} {k' : H'}
    (hsend : Returns answer' false x ⟨h', [], [], []⟩ c ⟨k', [], [], bs⟩)
    (hread : Reads answer y bs d) :
  Reaches answer answer' (talk (y >>= f) h (x >>= g) h') (talk (f d) h (g c) k')
  := by
  apply (reaches_right _ (hsend.comes g)).trans
  apply (reaches_toLeft _ _).trans
  exact reaches_left _ ((hread false ⟨h, bs, [], []⟩ [] (List.append_nil _).symm).comes f)

/-- The party on the right asks, the party on the left replies, and the party on the right takes
the reply. -/
theorem reaches_talk_ask
    {request reply : List B} (hask : Comes answer' q ⟨h', [], [], []⟩ q₁ ⟨k', [], [], request⟩)
    (hserve : Comes answer p ⟨h, request, [], []⟩ p₁ ⟨k, [], [], reply⟩)
    (htake : Comes answer' q₁ ⟨k', reply, [], []⟩ q₂ ⟨k'', [], [], []⟩) :
  Reaches answer answer' (talk p h q h') (talk p₁ k q₂ k'')
  := by
  apply (reaches_right _ hask).trans
  apply (reaches_toLeft _ _).trans
  apply (reaches_left _ hserve).trans
  apply (reaches_toRight _ _).trans
  exact reaches_right _ htake

/-- Both parties have returned, and nothing is on the way. Something that was sent may have been
left unread. -/
structure Over (s : Party B Reply H α × Party B Reply' H' β) (a : α) (b : β) : Prop where
  left : s.1.1 = .ret a
  right : s.2.1 = .ret b
  leftSide : s.1.2.buffer = [] ∧ s.1.2.sent = []
  rightSide : s.2.2.buffer = [] ∧ s.2.2.sent = []

/-- A party that has returned and has nothing in its buffer does not move. -/
theorem not_moves_of_ret
    {x y : Party B Reply H α} {a : α} (hret : x.1 = .ret a) (hbuffer : x.2.buffer = []) :
  ¬ Moves answer x y
  := by
  intro hm
  cases hm with
  | step hs =>
      obtain ⟨p, w⟩ := x
      cases hret
      cases hs
  | spill hb hbs =>
      rw [hbuffer] at hb
      exact hbs (List.append_eq_nil_iff.mp hb.symm).1

/-- Nothing happens any more. -/
theorem Over.not_step
    {s t : Party B Reply H α × Party B Reply' H' β} {a : α} {b : β} (h : Over s a b) :
  ¬ Step answer answer' s t
  := by
  intro hs
  cases hs with
  | left hm => exact not_moves_of_ret h.left h.leftSide.1 hm
  | right hm => exact not_moves_of_ret h.right h.rightSide.1 hm
  | toRight hsent hbs =>
      rw [h.leftSide.2] at hsent
      exact hbs (List.append_eq_nil_iff.mp hsent.symm).1
  | toLeft hsent hbs =>
      rw [h.rightSide.2] at hsent
      exact hbs (List.append_eq_nil_iff.mp hsent.symm).1

/-- When one run is over at some time, every run may be continued to the same end: the parties
never wait for each other. -/
theorem Reaches.of_over
    {s t f : Party B Reply H α × Party B Reply' H' β} {a : α} {b : β}
    (hf : Reaches answer answer' s f) (hover : Over f a b) (ht : Reaches answer answer' s t) :
  Reaches answer answer' t f
  := by
  obtain ⟨d, hfd, htd⟩ := hf.join ht
  rcases Relation.ReflTransGen.cases_head hfd with rfl | ⟨u, hu, -⟩
  · exact htd
  · exact absurd hu hover.not_step

/-- Both parties go on with what follows. -/
theorem Reaches.talk_bind
    {f : Party B Reply H (Except ε α) × Party B Reply' H' (Except ε' β)} {a : α} {b : β}
    (hf : Reaches answer answer' (talk p h q h') f) (hover : Over f (.ok a) (.ok b))
    (r : α → Proc B Reply ε γ) (s : β → Proc B Reply' ε' δ) :
  Reaches answer answer' (talk (p >>= r) h (q >>= s) h')
    (((r a).run, f.1.2), ((s b).run, f.2.2))
  := by
  have hbind := hf.bind (ExceptT.bindCont r) (ExceptT.bindCont s)
  rw [hover.left, hover.right] at hbind
  exact hbind

end Duplex
