import RsyncRs.Program.Layer
import RsyncRs.Program.Termination

/-!
# Queues that carry a code

Two procedures may talk in a code: what one of them writes is coded, and the other one reads the
code as far as it needs to. Where the code is cut on its way does not matter. So what two procedures
do over two queues they do in code as well.
-/

variable {B C X Y : Type} {Reply : X → Type} {Reply' : Y → Type} {H H' D ε ε' α β : Type}

/-- Commands to a channel on which what is written is coded by `encode` and what is read is read by
`recv`, which has a memory. -/
def codingLayer (encode : List B → List C)
    (recv : D → Prog (Answer (B := C) Reply) (Option B × D)) (d : D) :
    (c : Act B X) → Prog (Answer (B := C) Reply) (Answer (B := B) Reply c × D)
  | .read => recv d
  | .write bs => .call (.write (encode bs)) fun r => .ret (r, d)
  | .flush => .call .flush fun r => .ret (r, d)
  | .host x => .call (.host x) fun r => .ret (r, d)

/-- The procedure over such a channel. -/
def Proc.codedBy (encode : List B → List C)
    (recv : D → Prog (Answer (B := C) Reply) (Option B × D)) (start : D) (p : Proc B Reply ε α) :
    Proc C Reply ε α :=
  Proc.ofProg (p.run.through (codingLayer encode recv) start >>= fun x => .ret x.1)

/-- A code for what is written, as it is read again. A reader has a memory in `D`. -/
structure Code (B C D : Type) where
  /-- What is put on the wire for something that is written. -/
  encode : List B → List C
  /-- The memory of a reader between two of these. -/
  start : D
  /-- Read one symbol. -/
  recv {X : Type} (Reply : X → Type) (d : D) : Prog (Answer (B := C) Reply) (Option B × D)
  /-- With the first memory the symbols on the wire are read as those that follow, and this leaves
  the other memory. -/
  Carries : D → List C → List B → D → Prop
  carries_encode (bs : List B) : Carries start (encode bs) bs start
  carries_nil (d : D) : Carries d [] [] d
  carries_append {d d₁ d₂ : D} {cs cs' : List C} {bs bs' : List B} (h : Carries d cs bs d₁)
    (h' : Carries d₁ cs' bs' d₂) : Carries d (cs ++ cs') (bs ++ bs') d₂
  /-- The code can be cut between any two symbols. -/
  exists_split {d d' : D} {cs : List C} (bs bs' : List B) (h : Carries d cs (bs ++ bs') d') :
    ∃ cs₁ cs₂ d₁, cs = cs₁ ++ cs₂ ∧ Carries d cs₁ bs d₁ ∧ Carries d₁ cs₂ bs' d'
  /-- Nothing stands for nothing. -/
  eq_nil {d d' : D} {cs : List C} (h : Carries d cs [] d') : cs = []
  /-- A symbol that is there is read. -/
  ends_recv {X : Type} {Reply : X → Type} {H : Type} (answer : H → (x : X) → Option (Reply x × H))
    {d d' : D} {cs : List C} {b : B} (h : Carries d cs [b] d') (rest : List C)
    (w : Endpoint H C) (hw : w.input = cs ++ rest) :
    Prog.Ends (Prog.Answers (Endpoint.answer answer false)) (recv Reply d) w (some b, d')
      { w with input := rest }

namespace Code

variable (K : Code B C D)

/-- Commands to the channel in code. -/
abbrev layer (d : D) : (c : Act B X) → Prog (Answer (B := C) Reply) (Answer (B := B) Reply c × D) :=
  codingLayer K.encode (K.recv Reply) d

/-- The program in code, when the reader has the memory `d`. -/
def codedFrom (d : D) (p : Prog (Answer (B := B) Reply) α) : Prog (Answer (B := C) Reply) α :=
  p.through K.layer d >>= fun x => .ret x.1

/-- The procedure in code. -/
def coded (p : Proc B Reply ε α) : Proc C Reply ε α :=
  p.codedBy K.encode (K.recv Reply) K.start

/-- One end of the queues and the same end in code. The code that is read ends with the memory `e`,
and the code that is written starts with the memory `e'`. -/
structure Stands (e e' : D) (v : Endpoint H B) (d : D) (w : Endpoint H C) : Prop where
  host : w.host = v.host
  input : K.Carries d w.input v.input e
  output : ∃ d', K.Carries e' w.sent v.sent d' ∧ K.Carries d' w.buffer v.buffer K.start

variable {K} {answer : H → (x : X) → Option (Reply x × H)}
  {answer' : H' → (y : Y) → Option (Reply' y × H')} {e e' d : D} {v v' : Endpoint H B}
  {w : Endpoint H C}

/-- What the channel answers is carried out in code. -/
theorem carriesOut_layer :
  Prog.CarriesOut
    (K.layer : D → (c : Act B X) → Prog (Answer (B := C) Reply) (Answer (B := B) Reply c × D))
    (Prog.Answers (Endpoint.answer answer false)) (Prog.Answers (Endpoint.answer answer false))
    (K.Stands (H := H) e e')
  := by
  rintro v d w c r v' ⟨hhost, hinput, d', hsent, hbuffer⟩ hact
  obtain ⟨h, input, buffer, sent⟩ := v
  cases c with
  | read =>
      cases input with
      | nil => cases hact
      | cons b bs =>
          cases hact
          obtain ⟨cs, rest, d₁, hcs, hb, hrest⟩ := K.exists_split [b] bs hinput
          exact ⟨d₁, _, K.ends_recv answer hb rest w hcs, hhost, hrest, d', hsent, hbuffer⟩
  | write bs =>
      cases hact
      refine ⟨d, _, Prog.Ends.call rfl (Prog.Ends.ret _ _), hhost, hinput, d', hsent, ?_⟩
      exact K.carries_append hbuffer (K.carries_encode bs)
  | flush =>
      cases hact
      refine ⟨d, _, Prog.Ends.call rfl (Prog.Ends.ret _ _), hhost, hinput, K.start, ?_, ?_⟩
      · exact K.carries_append hsent hbuffer
      · exact K.carries_nil _
  | host x =>
      simp only [Prog.Answers, Endpoint.answer] at hact
      cases hanswer : answer h x with
      | none =>
          rw [hanswer] at hact
          cases hact
      | some y =>
          rw [hanswer] at hact
          cases hact
          have hcall : Prog.Answers (Endpoint.answer answer false) w (.host x) y.1
              { w with host := y.2 } := by
            simp only [Prog.Answers, Endpoint.answer, hhost, hanswer]
          exact ⟨d, _, Prog.Ends.call hcall (Prog.Ends.ret _ _), rfl, hinput, d', hsent, hbuffer⟩

/-- A party in code. -/
structure StandsFor (e e' : D) (x : Duplex.Party B Reply H α) (y : Duplex.Party C Reply H α) :
    Prop where
  exists_memory : ∃ d, y.1 = K.codedFrom d x.1 ∧ K.Stands e e' x.2 d y.2

variable {x x' : Duplex.Party B Reply H α} {y : Duplex.Party C Reply H α}

/-- A party in code does what the party does. -/
theorem StandsFor.moves
    (hmoves : Duplex.Moves answer x x') (h : K.StandsFor e e' x y) :
  ∃ y', Relation.ReflTransGen (Duplex.Moves answer) y y' ∧ K.StandsFor e e' x' y'
  := by
  obtain ⟨p, w⟩ := y
  obtain ⟨d, rfl, hstands⟩ := h
  cases hmoves with
  | step hstep =>
      obtain ⟨d', w', hreaches, hstands'⟩ := hstep.through carriesOut_layer hstands
      refine ⟨(K.codedFrom d' x'.1, w'), ?_, ⟨d', rfl, hstands'⟩⟩
      exact Relation.ReflTransGen.mono (fun _ _ h => .step h) _ _
        (Prog.Reaches.bind hreaches fun x => .ret x.1)
  | @spill bs rest hbuffer hbs =>
      obtain ⟨hhost, hinput, d₁, hsent, hcarries⟩ := hstands
      rw [hbuffer] at hcarries
      obtain ⟨cs, rest', d₂, hcs, hbs', hrest⟩ := K.exists_split bs rest hcarries
      refine ⟨(K.codedFrom d x.1, { w with buffer := rest', sent := w.sent ++ cs }), ?_,
        ⟨d, rfl, hhost, hinput, d₂, K.carries_append hsent hbs', hrest⟩⟩
      by_cases hnil : cs = []
      · subst hnil
        rw [List.append_nil, ← List.nil_append rest', ← hcs]
      · exact .single (.spill (x := (_, _)) hcs hnil)

/-- What is on the way from the first party to the second one gets there. -/
theorem StandsFor.deliver
    {z : Duplex.Party B Reply' H' β} {u : Duplex.Party C Reply' H' β} {bs rest : List B}
    (hsent : x.2.sent = bs ++ rest) (hx : K.StandsFor e e' x y) (hz : K.StandsFor e' e z u) :
  ∃ e₁ cs rest', y.2.sent = cs ++ rest' ∧ K.StandsFor e e₁ (x.unsend rest) (y.unsend rest') ∧
    K.StandsFor e₁ e (z.receive bs) (u.receive cs)
  := by
  obtain ⟨d, hy, hhost, hinput, d', hcarries, hbuffer⟩ := hx
  obtain ⟨d₁, hu, hhost', hinput', houtput'⟩ := hz
  rw [hsent] at hcarries
  obtain ⟨cs, rest', e₁, hcs, hbs, hrest⟩ := K.exists_split bs rest hcarries
  exact ⟨e₁, cs, rest', hcs, ⟨d, hy, hhost, hinput, d', hrest, hbuffer⟩,
    ⟨d₁, hu, hhost', K.carries_append hinput' hbs, houtput'⟩⟩

end Code

namespace Duplex

open Code

variable {K : Code B C D} {answer : H → (x : X) → Option (Reply x × H)}
  {answer' : H' → (y : Y) → Option (Reply' y × H')}

/-- Two parties in code. -/
def InCode (K : Code B C D) (s : Party B Reply H α × Party B Reply' H' β)
    (t : Party C Reply H α × Party C Reply' H' β) : Prop :=
  ∃ e e', K.StandsFor e e' s.1 t.1 ∧ K.StandsFor e' e s.2 t.2

/-- The party on the left moves on. -/
theorem reaches_moves_left
    {x x' : Party B Reply H α} (y : Party B Reply' H' β)
    (h : Relation.ReflTransGen (Moves answer) x x') :
  Reaches answer answer' (x, y) (x', y)
  := Relation.ReflTransGen.lift (fun x => (x, y)) (fun _ _ h => .left h) _ _ h

/-- What is sent from the left to the right is delivered, if it is anything. -/
theorem reaches_sent
    {x : Party B Reply H α} (y : Party B Reply' H' β) {bs rest : List B}
    (hsent : x.2.sent = bs ++ rest) :
  Reaches answer answer' (x, y) (x.unsend rest, y.receive bs)
  := by
  by_cases hbs : bs = []
  · subst hbs
    rw [Party.receive, List.append_nil, Party.unsend, ← List.nil_append rest, ← hsent]
    exact .refl
  · exact .single (.toRight hsent hbs)

/-- Two parties in code do what the parties do. -/
theorem InCode.step
    {s s' : Party B Reply H α × Party B Reply' H' β} {t : Party C Reply H α × Party C Reply' H' β}
    (hstep : Step answer answer' s s') (h : InCode K s t) :
  ∃ t', Reaches answer answer' t t' ∧ InCode K s' t'
  := by
  obtain ⟨e, e', hleft, hright⟩ := h
  cases hstep with
  | left hmoves =>
      obtain ⟨y, hy, hstands⟩ := hleft.moves hmoves
      exact ⟨(y, t.2), reaches_moves_left t.2 hy, e, e', hstands, hright⟩
  | right hmoves =>
      obtain ⟨y, hy, hstands⟩ := hright.moves hmoves
      exact ⟨(t.1, y), (reaches_moves_left t.1 hy).swap, e, e', hleft, hstands⟩
  | toRight hsent =>
      obtain ⟨e₁, cs, rest, hcs, hleft', hright'⟩ := hleft.deliver hsent hright
      exact ⟨_, reaches_sent t.2 hcs, e, e₁, hleft', hright'⟩
  | toLeft hsent =>
      obtain ⟨e₁, cs, rest, hcs, hright', hleft'⟩ := hright.deliver hsent hleft
      exact ⟨_, (reaches_sent t.1 hcs).swap, e₁, e', hleft', hright'⟩

/-- Whatever two parties come to, they come to in code. -/
theorem InCode.reaches
    {s s' : Party B Reply H α × Party B Reply' H' β} {t : Party C Reply H α × Party C Reply' H' β}
    (hreaches : Reaches answer answer' s s') (h : InCode K s t) :
  ∃ t', Reaches answer answer' t t' ∧ InCode K s' t'
  := by
  induction hreaches with
  | refl => exact ⟨t, .refl, h⟩
  | tail _ hstep ih =>
      obtain ⟨t₁, ht₁, h₁⟩ := ih
      obtain ⟨t', ht', h'⟩ := h₁.step hstep
      exact ⟨t', ht₁.trans ht', h'⟩

/-- Two parties that are at their end are at their end in code. -/
theorem InCode.over
    {s : Party B Reply H α × Party B Reply' H' β} {t : Party C Reply H α × Party C Reply' H' β}
    {a : α} {b : β} (hover : Over s a b) (h : InCode K s t) :
  Over t a b ∧ t.1.2.host = s.1.2.host ∧ t.2.2.host = s.2.2.host
  := by
  obtain ⟨e, e', ⟨d, hp, hhost, -, d₁, hsent, hbuffer⟩, hright⟩ := h
  obtain ⟨d', hq, hhost', -, d₂, hsent', hbuffer'⟩ := hright
  rw [hover.leftSide.2] at hsent
  rw [hover.leftSide.1] at hbuffer
  rw [hover.rightSide.2] at hsent'
  rw [hover.rightSide.1] at hbuffer'
  refine ⟨⟨?_, ?_, ⟨K.eq_nil hbuffer, K.eq_nil hsent⟩, ⟨K.eq_nil hbuffer', K.eq_nil hsent'⟩⟩,
    hhost, hhost'⟩
  · rw [hp, hover.left]
    rfl
  · rw [hq, hover.right]
    rfl

/-- When two procedures come to an end, they come to the same end in code. -/
theorem exists_coded
    {p : Proc B Reply ε α} {q : Proc B Reply' ε' β} {h : H} {h' : H'}
    {f : Party B Reply H (Except ε α) × Party B Reply' H' (Except ε' β)} {a : Except ε α}
    {b : Except ε' β} (hf : Reaches answer answer' (talk p h q h') f) (hover : Over f a b) :
  ∃ g, Reaches answer answer' (talk (K.coded p) h (K.coded q) h') g ∧ Over g a b ∧
    g.1.2.host = f.1.2.host ∧ g.2.2.host = f.2.2.host
  := by
  have hstart : InCode K (talk p h q h') (talk (K.coded p) h (K.coded q) h') :=
    ⟨K.start, K.start,
      ⟨K.start, rfl, rfl, K.carries_nil _, K.start, K.carries_nil _, K.carries_nil _⟩,
      ⟨K.start, rfl, rfl, K.carries_nil _, K.start, K.carries_nil _, K.carries_nil _⟩⟩
  obtain ⟨g, hg, hcode⟩ := hstart.reaches hf
  exact ⟨g, hg, hcode.over hover⟩

end Duplex
