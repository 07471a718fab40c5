import RsyncRs.Program.Channel

/-!
# Two procedures that talk over queues

Two parties run at the two ends of a pair of first-in first-out queues. A party takes its own
steps, what it has written may leave its buffer before it is flushed, and what it has sent
reaches the other one in pieces of any size, at any time. A read waits for its symbol. Which of
these happens next does not matter: any two runs can be brought together again. So one run that
ends shows how all of them end.
-/

open Relation

namespace Duplex

variable {B X Y : Type} {Reply : X → Type} {Reply' : Y → Type} {H H' α β : Type}

/-- A program at its end of the queues. -/
abbrev Party (B : Type) {X : Type} (Reply : X → Type) (H α : Type) : Type 1 :=
  Prog (Answer (B := B) Reply) α × Endpoint H B

/-- The party with `bs` added to what it may read. -/
def Party.receive (x : Party B Reply H α) (bs : List B) : Party B Reply H α :=
  (x.1, { x.2 with input := x.2.input ++ bs })

/-- The party when `rest` is still to be delivered. -/
def Party.unsend (x : Party B Reply H α) (rest : List B) : Party B Reply H α :=
  (x.1, { x.2 with sent := rest })

/-- What a party does by itself. -/
inductive Moves (answer : H → (x : X) → Option (Reply x × H)) :
    Party B Reply H α → Party B Reply H α → Prop where
  /-- It takes a step, which is not a read of what is not there. -/
  | step {x y : Party B Reply H α}
      (h : Prog.Step (Prog.Answers (Endpoint.answer answer false)) x y) : Moves answer x y
  /-- Something that it has written leaves the buffer. -/
  | spill {x : Party B Reply H α} {bs rest : List B} (hbuffer : x.2.buffer = bs ++ rest)
      (hbs : bs ≠ []) :
      Moves answer x (x.1, { x.2 with buffer := rest, sent := x.2.sent ++ bs })

section Moves

variable {answer : H → (x : X) → Option (Reply x × H)}

/-- More input does not change what a program does. -/
theorem step_receive
    {x x' : Party B Reply H α}
    (h : Prog.Step (Prog.Answers (Endpoint.answer answer false)) x x') (bs : List B) :
  Prog.Step (Prog.Answers (Endpoint.answer answer false)) (x.receive bs) (x'.receive bs)
  := by
  cases h with
  | loop => apply Prog.Step.loop
  | @call c k r w w' h =>
      apply Prog.Step.call
      simp only [Prog.Answers] at h ⊢
      cases c with
      | read =>
          simp only [Endpoint.answer] at h ⊢
          cases hw : w.input with
          | nil =>
              rw [hw] at h
              simp at h
          | cons b rest =>
              rw [hw] at h
              cases h
              rfl
      | write cs =>
          cases h
          rfl
      | flush =>
          cases h
          rfl
      | host c =>
          simp only [Endpoint.answer] at h ⊢
          split at h
          · cases h
            rfl
          · cases h

/-- More input does not change what a party does. -/
theorem Moves.receive
    {x x' : Party B Reply H α} (h : Moves answer x x') (bs : List B) :
  Moves answer (x.receive bs) (x'.receive bs)
  := by
  cases h with
  | step h => exact Moves.step (step_receive h bs)
  | spill hbuffer hbs => exact Moves.spill (x := x.receive bs) hbuffer hbs

/-- What was sent before does not change what a program does. -/
theorem step_unsend
    {x x' : Party B Reply H α}
    (h : Prog.Step (Prog.Answers (Endpoint.answer answer false)) x x') {bs rest : List B}
    (hsent : x.2.sent = bs ++ rest) :
  ∃ rest', x'.2.sent = bs ++ rest' ∧
    Prog.Step (Prog.Answers (Endpoint.answer answer false)) (x.unsend rest) (x'.unsend rest')
  := by
  cases h with
  | loop => exact ⟨rest, hsent, Prog.Step.loop⟩
  | @call c k r w w' h =>
      simp only [Prog.Answers] at h
      dsimp only at hsent
      cases c with
      | read =>
          simp only [Endpoint.answer] at h
          cases hw : w.input with
          | nil =>
              rw [hw] at h
              simp at h
          | cons b cs =>
              rw [hw] at h
              cases h
              refine ⟨rest, hsent, Prog.Step.call ?_⟩
              simp only [Prog.Answers, Endpoint.answer, hw]
      | write cs =>
          cases h
          exact ⟨rest, hsent, Prog.Step.call rfl⟩
      | flush =>
          cases h
          refine ⟨rest ++ w.buffer, ?_, Prog.Step.call rfl⟩
          dsimp only
          rw [hsent, List.append_assoc]
      | host c =>
          simp only [Endpoint.answer] at h
          split at h
          · next r' h' heq =>
              cases h
              refine ⟨rest, hsent, Prog.Step.call ?_⟩
              simp only [Prog.Answers, Endpoint.answer, heq]
          · cases h

/-- What a party has sent before does not change what it does. -/
theorem Moves.unsend
    {x x' : Party B Reply H α} (h : Moves answer x x') {bs rest : List B}
    (hsent : x.2.sent = bs ++ rest) :
  ∃ rest', x'.2.sent = bs ++ rest' ∧ Moves answer (x.unsend rest) (x'.unsend rest')
  := by
  cases h with
  | step h =>
      obtain ⟨rest', hsent', hstep⟩ := step_unsend h hsent
      exact ⟨rest', hsent', Moves.step hstep⟩
  | @spill cs rest' hbuffer hcs =>
      refine ⟨rest ++ cs, ?_, Moves.spill (x := x.unsend rest) hbuffer hcs⟩
      dsimp only
      rw [hsent, List.append_assoc]

/-- Two configurations come together in at most one step of each. -/
def Meets {S : Type*} (r : S → S → Prop) (a b : S) : Prop :=
  ∃ d, ReflGen r a d ∧ ReflGen r b d

theorem Meets.symm
    {S : Type*} {r : S → S → Prop} {a b : S} (h : Meets r a b) :
  Meets r b a
  := by
  obtain ⟨d, ha, hb⟩ := h
  exact ⟨d, hb, ha⟩

theorem Meets.mono
    {S : Type*} {r r' : S → S → Prop} (hr : ∀ a b, r a b → r' a b) {a b : S} (h : Meets r a b) :
  Meets r' a b
  := by
  obtain ⟨d, ha, hb⟩ := h
  exact ⟨d, ha.mono hr, hb.mono hr⟩

theorem Meets.map
    {S T : Type*} {r : S → S → Prop} {r' : T → T → Prop} {f : S → T}
    (hf : ∀ a b, r a b → r' (f a) (f b)) {a b : S} (h : Meets r a b) :
  Meets r' (f a) (f b)
  := by
  have key : ∀ {a d : S}, ReflGen r a d → ReflGen r' (f a) (f d) := by
    intro a d h
    cases h with
    | refl => apply ReflGen.refl
    | single h => apply ReflGen.single (hf _ _ h)
  obtain ⟨d, ha, hb⟩ := h
  exact ⟨f d, key ha, key hb⟩

/-- Something that was written leaves the buffer. -/
inductive Spills : Party B Reply H α → Party B Reply H α → Prop where
  | spill {x : Party B Reply H α} {bs rest : List B} (hbuffer : x.2.buffer = bs ++ rest)
      (hbs : bs ≠ []) : Spills x (x.1, { x.2 with buffer := rest, sent := x.2.sent ++ bs })

theorem Spills.moves
    {x y : Party B Reply H α} (h : Spills x y) :
  Moves answer x y
  := by
  cases h with
  | spill hbuffer hbs => exact Moves.spill hbuffer hbs

/-- A program takes its step after a spill, too. Before, the step may leave nothing to spill. -/
theorem step_spills
    {x y z : Party B Reply H α}
    (h : Prog.Step (Prog.Answers (Endpoint.answer answer false)) x y) (hspills : Spills x z) :
  ∃ d, ReflGen Spills y d ∧ Prog.Step (Prog.Answers (Endpoint.answer answer false)) z d
  := by
  obtain @⟨bs, rest, hbuffer, hbs⟩ := hspills
  cases h with
  | loop => exact ⟨_, ReflGen.single (Spills.spill hbuffer hbs), Prog.Step.loop⟩
  | @call c k r w w' h =>
      simp only [Prog.Answers] at h
      dsimp only at hbuffer
      cases c with
      | read =>
          simp only [Endpoint.answer] at h
          cases hw : w.input with
          | nil =>
              rw [hw] at h
              simp at h
          | cons b cs =>
              rw [hw] at h
              cases h
              refine ⟨_, ReflGen.single (Spills.spill hbuffer hbs), Prog.Step.call ?_⟩
              simp only [Prog.Answers, Endpoint.answer, hw]
      | write cs =>
          cases h
          have hmore : w.buffer ++ cs = bs ++ (rest ++ cs) := by
            rw [hbuffer, List.append_assoc]
          exact ⟨_, ReflGen.single (Spills.spill hmore hbs), Prog.Step.call rfl⟩
      | flush =>
          cases h
          refine ⟨_, ReflGen.refl, Prog.Step.call ?_⟩
          simp only [Prog.Answers, Endpoint.answer]
          rw [List.append_assoc, ← hbuffer]
      | host c =>
          simp only [Endpoint.answer] at h
          split at h
          · next r' h' heq =>
              cases h
              refine ⟨_, ReflGen.single (Spills.spill hbuffer hbs), Prog.Step.call ?_⟩
              simp only [Prog.Answers, Endpoint.answer, heq]
          · cases h

/-- A step and a spill of the same party meet. -/
theorem meets_step_spill
    {x y : Party B Reply H α}
    (h : Prog.Step (Prog.Answers (Endpoint.answer answer false)) x y) {bs rest : List B}
    (hbuffer : x.2.buffer = bs ++ rest) (hbs : bs ≠ []) :
  Meets (Moves answer) y (x.1, { x.2 with buffer := rest, sent := x.2.sent ++ bs })
  := by
  obtain ⟨d, hspills, hstep⟩ := step_spills h (Spills.spill hbuffer hbs)
  exact ⟨d, hspills.mono fun _ _ h => h.moves, ReflGen.single (Moves.step hstep)⟩

/-- Two spills of the same buffer meet: the longer one is the shorter one and one more. -/
theorem meets_spills
    {x y z : Party B Reply H α} (hy : Spills x y) (hz : Spills x z) :
  Meets Spills y z
  := by
  obtain @⟨bs, rest, hbuffer, hbs⟩ := hy
  obtain @⟨cs, rest', hbuffer', hcs⟩ := hz
  have key : ∀ {bs cs rest rest' : List B}, x.2.buffer = bs ++ rest →
      x.2.buffer = cs ++ rest' → bs.length ≤ cs.length →
      ReflGen Spills (x.1, { x.2 with buffer := rest, sent := x.2.sent ++ bs })
        (x.1, { x.2 with buffer := rest', sent := x.2.sent ++ cs }) := by
    intro bs cs rest rest' hb hc hle
    obtain ⟨ds, rfl⟩ : bs <+: cs := List.prefix_of_prefix_length_le
      ⟨rest, hb.symm⟩ ⟨rest', hc.symm⟩ hle
    have hrest : rest = ds ++ rest' := by
      rw [hb, List.append_assoc] at hc
      apply List.append_cancel_left hc
    by_cases hds : ds = []
    · subst hds
      rw [List.append_nil, hrest]
      apply ReflGen.refl
    · apply ReflGen.single
      rw [← List.append_assoc]
      exact Spills.spill (x := (x.1, { x.2 with buffer := rest, sent := x.2.sent ++ bs }))
        hrest hds
  rcases Nat.le_total bs.length cs.length with hle | hle
  · exact ⟨_, key hbuffer hbuffer' hle, ReflGen.refl⟩
  · exact ⟨_, ReflGen.refl, key hbuffer' hbuffer hle⟩

/-- Whatever a party does, its ways meet. -/
theorem meets_moves
    {x y z : Party B Reply H α} (hy : Moves answer x y) (hz : Moves answer x z) :
  Meets (Moves answer) y z
  := by
  cases hy with
  | step hy =>
      cases hz with
      | step hz =>
          have heq : y = z := by
            cases hy with
            | loop =>
                cases hz
                rfl
            | call h =>
                cases hz with
                | call h' =>
                    obtain ⟨rfl, rfl⟩ := Prog.Answers.deterministic _ h h'
                    rfl
          rw [heq]
          exact ⟨z, ReflGen.refl, ReflGen.refl⟩
      | spill hbuffer hbs => apply meets_step_spill hy hbuffer hbs
  | spill hbuffer hbs =>
      cases hz with
      | step hz => apply (meets_step_spill hz hbuffer hbs).symm
      | spill hbuffer' hbs' =>
          apply (meets_spills (Spills.spill hbuffer hbs) (Spills.spill hbuffer' hbs')).mono
          exact fun _ _ h => h.moves

end Moves

end Duplex

namespace Proc

variable {B X : Type} {Reply : X → Type} {H ε α β : Type}
  {answer : H → (x : X) → Option (Reply x × H)}

/-- The procedure `p`, started at `w`, comes to where `q` is to be run at `w'`. -/
def Comes (answer : H → (x : X) → Option (Reply x × H)) (p : Proc B Reply ε α)
    (w : Endpoint H B) (q : Proc B Reply ε α) (w' : Endpoint H B) : Prop :=
  Prog.Reaches (Prog.Answers (Endpoint.answer answer false)) (p.run, w) (q.run, w')

theorem Comes.trans
    {p q r : Proc B Reply ε α} {w w₁ w₂ : Endpoint H B} (h : Comes answer p w q w₁)
    (h' : Comes answer q w₁ r w₂) :
  Comes answer p w r w₂
  := ReflTransGen.trans h h'

theorem Comes.bind
    {p q : Proc B Reply ε α} {w w' : Endpoint H B} (h : Comes answer p w q w')
    (f : α → Proc B Reply ε β) :
  Comes answer (p >>= f) w (q >>= f) w'
  := Prog.Reaches.bind h _

/-- A procedure that returns comes to what follows it. -/
theorem Returns.comes
    {p : Proc B Reply ε α} {w w' : Endpoint H B} {a : α} (h : Returns answer false p w a w')
    (f : α → Proc B Reply ε β) :
  Comes answer (p >>= f) w (f a) w'
  := Prog.Reaches.bind h _

end Proc

namespace Duplex

variable {B X Y : Type} {Reply : X → Type} {Reply' : Y → Type} {H H' α β : Type}

/-! ### Two parties -/

/-- What happens to two parties: one of them moves, or something that one has sent reaches the
other. -/
inductive Step (answer : H → (x : X) → Option (Reply x × H))
    (answer' : H' → (y : Y) → Option (Reply' y × H')) :
    Party B Reply H α × Party B Reply' H' β → Party B Reply H α × Party B Reply' H' β → Prop
    where
  | left {x x' : Party B Reply H α} {y : Party B Reply' H' β} (h : Moves answer x x') :
      Step answer answer' (x, y) (x', y)
  | right {x : Party B Reply H α} {y y' : Party B Reply' H' β} (h : Moves answer' y y') :
      Step answer answer' (x, y) (x, y')
  | toRight {x : Party B Reply H α} {y : Party B Reply' H' β} {bs rest : List B}
      (hsent : x.2.sent = bs ++ rest) (hbs : bs ≠ []) :
      Step answer answer' (x, y) (x.unsend rest, y.receive bs)
  | toLeft {x : Party B Reply H α} {y : Party B Reply' H' β} {bs rest : List B}
      (hsent : y.2.sent = bs ++ rest) (hbs : bs ≠ []) :
      Step answer answer' (x, y) (x.receive bs, y.unsend rest)

variable {answer : H → (x : X) → Option (Reply x × H)}
  {answer' : H' → (y : Y) → Option (Reply' y × H')}

theorem Step.swap
    {s t : Party B Reply H α × Party B Reply' H' β} (h : Step answer answer' s t) :
  Step answer' answer s.swap t.swap
  := by
  cases h with
  | left h => apply Step.right h
  | right h => apply Step.left h
  | toRight hsent hbs => apply Step.toLeft hsent hbs
  | toLeft hsent hbs => apply Step.toRight hsent hbs

theorem Meets.swap
    {s t : Party B Reply H α × Party B Reply' H' β} (h : Meets (Step answer answer') s t) :
  Meets (Step answer' answer) s.swap t.swap
  := h.map fun _ _ h => h.swap

/-- A move of the left party meets everything that may happen instead. -/
theorem meets_left
    {x x' : Party B Reply H α} {y : Party B Reply' H' β}
    {t : Party B Reply H α × Party B Reply' H' β} (h : Moves answer x x')
    (ht : Step answer answer' (x, y) t) :
  Meets (Step answer answer') (x', y) t
  := by
  cases ht with
  | left h' =>
      exact (meets_moves h h').map (f := fun x => (x, y)) fun _ _ h => Step.left h
  | right h' => exact ⟨_, ReflGen.single (Step.right h'), ReflGen.single (Step.left h)⟩
  | toRight hsent hbs =>
      obtain ⟨rest', hsent', hmoves⟩ := h.unsend hsent
      exact ⟨_, ReflGen.single (Step.toRight hsent' hbs), ReflGen.single (Step.left hmoves)⟩
  | toLeft hsent hbs =>
      exact ⟨_, ReflGen.single (Step.toLeft hsent hbs),
        ReflGen.single (Step.left (h.receive _))⟩

/-- Something that the left party has sent reaches the right one. -/
inductive Delivers :
    Party B Reply H α × Party B Reply' H' β → Party B Reply H α × Party B Reply' H' β → Prop
    where
  | toRight {x : Party B Reply H α} {y : Party B Reply' H' β} {bs rest : List B}
      (hsent : x.2.sent = bs ++ rest) (hbs : bs ≠ []) :
      Delivers (x, y) (x.unsend rest, y.receive bs)

theorem Delivers.step
    {s t : Party B Reply H α × Party B Reply' H' β} (h : Delivers s t) :
  Step answer answer' s t
  := by
  cases h with
  | toRight hsent hbs => exact Step.toRight hsent hbs

/-- Two deliveries meet: the longer one is the shorter one and one more. -/
theorem meets_delivers
    {s t u : Party B Reply H α × Party B Reply' H' β} (ht : Delivers s t) (hu : Delivers s u) :
  Meets Delivers t u
  := by
  obtain @⟨x, y, bs, rest, hsent, hbs⟩ := ht
  obtain @⟨_, _, cs, rest', hsent', hcs⟩ := hu
  have key : ∀ {bs cs rest rest' : List B}, x.2.sent = bs ++ rest → x.2.sent = cs ++ rest' →
      bs.length ≤ cs.length → ReflGen Delivers (x.unsend rest, y.receive bs)
        (x.unsend rest', y.receive cs) := by
    intro bs cs rest rest' hb hc hle
    obtain ⟨ds, rfl⟩ : bs <+: cs := List.prefix_of_prefix_length_le
      ⟨rest, hb.symm⟩ ⟨rest', hc.symm⟩ hle
    have hrest : rest = ds ++ rest' := by
      rw [hb, List.append_assoc] at hc
      apply List.append_cancel_left hc
    have hreceive : y.receive (bs ++ ds) = (y.receive bs).receive ds := by
      simp only [Party.receive, List.append_assoc]
    by_cases hds : ds = []
    · subst hds
      rw [List.append_nil, hrest]
      apply ReflGen.refl
    · apply ReflGen.single
      rw [hreceive]
      exact Delivers.toRight (x := x.unsend rest) hrest hds
  rcases Nat.le_total bs.length cs.length with hle | hle
  · exact ⟨_, key hsent hsent' hle, ReflGen.refl⟩
  · exact ⟨_, ReflGen.refl, key hsent' hsent hle⟩

/-- A delivery to the right meets everything that may happen instead. -/
theorem meets_toRight
    {x : Party B Reply H α} {y : Party B Reply' H' β}
    {t : Party B Reply H α × Party B Reply' H' β} {bs rest : List B}
    (hsent : x.2.sent = bs ++ rest) (hbs : bs ≠ []) (ht : Step answer answer' (x, y) t) :
  Meets (Step answer answer') (x.unsend rest, y.receive bs) t
  := by
  cases ht with
  | left h => exact (meets_left h (Step.toRight hsent hbs)).symm
  | right h =>
      have hdelivery : Step answer' answer (y, x) (y.receive bs, x.unsend rest) :=
        Step.toLeft hsent hbs
      exact (meets_left h hdelivery).symm.swap
  | toRight hsent' hcs =>
      apply (meets_delivers (Delivers.toRight hsent hbs) (Delivers.toRight hsent' hcs)).mono
      exact fun _ _ h => h.step
  | toLeft hsent' hcs =>
      exact ⟨_, ReflGen.single (Step.toLeft (x := x.unsend rest) (y := y.receive bs) hsent' hcs),
        ReflGen.single (Step.toRight (x := x.receive _) (y := y.unsend _) hsent hbs)⟩

/-- Any two things that may happen next meet. -/
theorem meets_step
    {s t u : Party B Reply H α × Party B Reply' H' β} (ht : Step answer answer' s t)
    (hu : Step answer answer' s u) :
  Meets (Step answer answer') t u
  := by
  cases ht with
  | left h => apply meets_left h hu
  | toRight hsent hbs => apply meets_toRight hsent hbs hu
  | right h => exact (meets_left h hu.swap).swap
  | toLeft hsent hbs => exact (meets_toRight hsent hbs hu.swap).swap

/-- The parties may come from one configuration to the other. -/
def Reaches (answer : H → (x : X) → Option (Reply x × H))
    (answer' : H' → (y : Y) → Option (Reply' y × H')) :
    Party B Reply H α × Party B Reply' H' β → Party B Reply H α × Party B Reply' H' β → Prop :=
  ReflTransGen (Step answer answer')

/-- Any two runs can be brought together again. -/
theorem Reaches.join
    {s t u : Party B Reply H α × Party B Reply' H' β} (ht : Reaches answer answer' s t)
    (hu : Reaches answer answer' s u) :
  ∃ d, Reaches answer answer' t d ∧ Reaches answer answer' u d
  := by
  apply church_rosser _ ht hu
  intro a b c hb hc
  obtain ⟨d, hbd, hcd⟩ := meets_step hb hc
  exact ⟨d, hbd, hcd.to_reflTransGen⟩

/-! ### Runs that end -/

/-- Both parties have returned, and all that was written was read. -/
structure Done (s : Party B Reply H α × Party B Reply' H' β) (a : α) (b : β) : Prop where
  left : s.1.1 = .ret a
  right : s.2.1 = .ret b
  leftSide : s.1.2.input = [] ∧ s.1.2.buffer = [] ∧ s.1.2.sent = []
  rightSide : s.2.2.input = [] ∧ s.2.2.buffer = [] ∧ s.2.2.sent = []

/-- Nothing happens any more. -/
theorem Done.not_step
    {s t : Party B Reply H α × Party B Reply' H' β} {a : α} {b : β} (h : Done s a b) :
  ¬ Step answer answer' s t
  := by
  have hmoves : ∀ {Z : Type} {R : Z → Type} {K γ : Type} {ans : K → (z : Z) → Option (R z × K)}
      {x y : Party B R K γ} {c : γ}, x.1 = .ret c → x.2.buffer = [] → ¬ Moves ans x y := by
    intro Z R K γ ans x y c hret hbuffer hm
    cases hm with
    | step hs =>
        obtain ⟨p, w⟩ := x
        cases hret
        cases hs
    | spill hb hbs =>
        rw [hbuffer] at hb
        exact hbs (List.append_eq_nil_iff.mp hb.symm).1
  intro hs
  cases hs with
  | left hm => exact hmoves h.left h.leftSide.2.1 hm
  | right hm => exact hmoves h.right h.rightSide.2.1 hm
  | toRight hsent hbs =>
      rw [h.leftSide.2.2] at hsent
      exact hbs (List.append_eq_nil_iff.mp hsent.symm).1
  | toLeft hsent hbs =>
      rw [h.rightSide.2.2] at hsent
      exact hbs (List.append_eq_nil_iff.mp hsent.symm).1

/-- When one run ends, every run may be continued to the same end: the parties never wait for
each other. -/
theorem Reaches.of_done
    {s t f : Party B Reply H α × Party B Reply' H' β} {a : α} {b : β}
    (hf : Reaches answer answer' s f) (hdone : Done f a b) (ht : Reaches answer answer' s t) :
  Reaches answer answer' t f
  := by
  obtain ⟨d, hfd, htd⟩ := hf.join ht
  rcases ReflTransGen.cases_head hfd with rfl | ⟨u, hu, -⟩
  · apply htd
  · exact absurd hu hdone.not_step

/-- The results of runs that end are the same. -/
theorem Done.unique
    {s f f' : Party B Reply H α × Party B Reply' H' β} {a a' : α} {b b' : β}
    (hf : Reaches answer answer' s f) (hdone : Done f a b)
    (hf' : Reaches answer answer' s f') (hdone' : Done f' a' b') :
  a' = a ∧ b' = b
  := by
  have heq : f' = f := by
    rcases ReflTransGen.cases_head (hf.of_done hdone hf') with rfl | ⟨u, hu, -⟩
    · rfl
    · exact absurd hu hdone'.not_step
  subst heq
  constructor
  · have h := hdone'.left.symm.trans hdone.left
    cases h
    rfl
  · have h := hdone'.right.symm.trans hdone.right
    cases h
    rfl

/-! ### Schedules -/

theorem reaches_left
    {x x' : Party B Reply H α} (y : Party B Reply' H' β)
    (h : Prog.Reaches (Prog.Answers (Endpoint.answer answer false)) x x') :
  Reaches answer answer' (x, y) (x', y)
  := by
  apply ReflTransGen.lift (fun x => (x, y)) ?_ _ _ h
  intro a b hab
  exact Step.left (Moves.step hab)

theorem reaches_right
    (x : Party B Reply H α) {y y' : Party B Reply' H' β}
    (h : Prog.Reaches (Prog.Answers (Endpoint.answer answer' false)) y y') :
  Reaches answer answer' (x, y) (x, y')
  := by
  apply ReflTransGen.lift (fun y => (x, y)) ?_ _ _ h
  intro a b hab
  exact Step.right (Moves.step hab)

/-- All that the left party has sent is delivered. -/
theorem reaches_toRight
    (x : Party B Reply H α) (y : Party B Reply' H' β) :
  Reaches answer answer' (x, y) (x.unsend [], y.receive x.2.sent)
  := by
  by_cases h : x.2.sent = []
  · have hx : x.unsend [] = x := by
      rw [← h]
      rfl
    have hy : y.receive x.2.sent = y := by
      rw [h, Party.receive, List.append_nil]
    rw [hx, hy]
    apply ReflTransGen.refl
  · exact ReflTransGen.single (Step.toRight (List.append_nil _).symm h)

/-- All that the right party has sent is delivered. -/
theorem reaches_toLeft
    (x : Party B Reply H α) (y : Party B Reply' H' β) :
  Reaches answer answer' (x, y) (x.receive y.2.sent, y.unsend [])
  := by
  by_cases h : y.2.sent = []
  · have hx : y.unsend [] = y := by
      rw [← h]
      rfl
    have hy : x.receive y.2.sent = x := by
      rw [h, Party.receive, List.append_nil]
    rw [hx, hy]
    apply ReflTransGen.refl
  · exact ReflTransGen.single (Step.toLeft (List.append_nil _).symm h)

end Duplex
