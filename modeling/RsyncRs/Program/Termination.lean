import RsyncRs.Program.Commuting
import RsyncRs.Program.Talk

/-!
# Two procedures come to an end

What two parties do over a pair of queues is the steps of their programs, and that what they have
written is carried from one to the other. When one run is over at some time, no run goes on
forever.
-/

open Relation

namespace Duplex

variable {B X Y : Type} {Reply : X → Type} {Reply' : Y → Type} {H H' α β : Type}

/-! ### Steps that work and steps that carry -/

/-- A configuration of two parties. -/
abbrev Parties (B : Type) {X Y : Type} (Reply : X → Type) (Reply' : Y → Type) (H H' α β : Type) :
    Type 1 :=
  Party B Reply H α × Party B Reply' H' β

/-- The program of one of the parties takes a step. -/
inductive Works (answer : H → (x : X) → Option (Reply x × H))
    (answer' : H' → (y : Y) → Option (Reply' y × H')) :
    Parties B Reply Reply' H H' α β → Parties B Reply Reply' H H' α β → Prop where
  | left {x x' : Party B Reply H α} {y : Party B Reply' H' β}
      (h : Prog.Step (Prog.Answers (Endpoint.answer answer false)) x x') :
      Works answer answer' (x, y) (x', y)
  | right {x : Party B Reply H α} {y y' : Party B Reply' H' β}
      (h : Prog.Step (Prog.Answers (Endpoint.answer answer' false)) y y') :
      Works answer answer' (x, y) (x, y')

/-- Something that was written comes nearer to where it is read. -/
inductive Carries :
    Parties B Reply Reply' H H' α β → Parties B Reply Reply' H H' α β → Prop where
  | left {x x' : Party B Reply H α} {y : Party B Reply' H' β} (h : Spills x x') :
      Carries (x, y) (x', y)
  | right {x : Party B Reply H α} {y y' : Party B Reply' H' β} (h : Spills y y') :
      Carries (x, y) (x, y')
  | toRight {x : Party B Reply H α} {y : Party B Reply' H' β} {bs rest : List B}
      (hsent : x.2.sent = bs ++ rest) (hbs : bs ≠ []) :
      Carries (x, y) (x.unsend rest, y.receive bs)
  | toLeft {x : Party B Reply H α} {y : Party B Reply' H' β} {bs rest : List B}
      (hsent : y.2.sent = bs ++ rest) (hbs : bs ≠ []) :
      Carries (x, y) (x.receive bs, y.unsend rest)

variable {answer : H → (x : X) → Option (Reply x × H)}
  {answer' : H' → (y : Y) → Option (Reply' y × H')}

theorem step_iff
    {s t : Parties B Reply Reply' H H' α β} :
  Step answer answer' s t ↔ Works answer answer' s t ∨ Carries s t
  := by
  constructor
  · intro h
    cases h with
    | left h =>
        cases h with
        | step h => exact .inl (.left h)
        | spill hbuffer hbs => exact .inr (.left (.spill hbuffer hbs))
    | right h =>
        cases h with
        | step h => exact .inl (.right h)
        | spill hbuffer hbs => exact .inr (.right (.spill hbuffer hbs))
    | toRight hsent hbs => exact .inr (.toRight hsent hbs)
    | toLeft hsent hbs => exact .inr (.toLeft hsent hbs)
  · rintro (h | h)
    · cases h with
      | left h => exact .left (.step h)
      | right h => exact .right (.step h)
    · cases h with
      | left h => exact .left h.moves
      | right h => exact .right h.moves
      | toRight hsent hbs => exact .toRight hsent hbs
      | toLeft hsent hbs => exact .toLeft hsent hbs

theorem Works.swap
    {s t : Parties B Reply Reply' H H' α β} (h : Works answer answer' s t) :
  Works answer' answer s.swap t.swap
  := by
  cases h with
  | left h => exact .right h
  | right h => exact .left h

theorem Carries.swap
    {s t : Parties B Reply Reply' H H' α β} (h : Carries s t) :
  Carries s.swap t.swap
  := by
  cases h with
  | left h => exact .right h
  | right h => exact .left h
  | toRight hsent hbs => exact .toLeft hsent hbs
  | toLeft hsent hbs => exact .toRight hsent hbs

/-- A step of the left program and something that is carried meet. -/
theorem works_left_carries
    {x x' : Party B Reply H α} {y : Party B Reply' H' β}
    {t : Parties B Reply Reply' H H' α β}
    (h : Prog.Step (Prog.Answers (Endpoint.answer answer false)) x x') (ht : Carries (x, y) t) :
  ∃ d, ReflGen Carries (x', y) d ∧ Works answer answer' t d
  := by
  cases ht with
  | left hspills =>
      obtain ⟨d, hd, hstep⟩ := step_spills h hspills
      refine ⟨(d, y), ?_, .left hstep⟩
      cases hd with
      | refl => exact .refl
      | single hd => exact .single (.left hd)
  | right hspills => exact ⟨_, .single (.right hspills), .left h⟩
  | toRight hsent hbs =>
      obtain ⟨rest', hsent', hstep⟩ := step_unsend h hsent
      exact ⟨_, .single (.toRight hsent' hbs), .left hstep⟩
  | toLeft hsent hbs => exact ⟨_, .single (.toLeft hsent hbs), .left (step_receive h _)⟩

/-- A program takes its step in one way. -/
theorem step_unique
    {x y z : Party B Reply H α} (hy : Prog.Step (Prog.Answers (Endpoint.answer answer false)) x y)
    (hz : Prog.Step (Prog.Answers (Endpoint.answer answer false)) x z) :
  y = z
  := by
  cases hy with
  | loop =>
      cases hz
      rfl
  | call h =>
      cases hz with
      | call h' =>
          obtain ⟨rfl, rfl⟩ := Prog.Answers.deterministic _ h h'
          rfl

/-- Steps of the programs meet. -/
theorem works_works
    {s t u : Parties B Reply Reply' H H' α β} (ht : Works answer answer' s t)
    (hu : Works answer answer' s u) :
  t = u ∨ ∃ d, Works answer answer' t d ∧ Works answer answer' u d
  := by
  cases ht with
  | left h =>
      cases hu with
      | left h' => exact .inl (by rw [step_unique h h'])
      | right h' => exact .inr ⟨_, .right h', .left h⟩
  | right h =>
      cases hu with
      | left h' => exact .inr ⟨_, .left h', .right h⟩
      | right h' => exact .inl (by rw [step_unique h h'])

theorem works_carries
    {s t u : Parties B Reply Reply' H H' α β} (ht : Works answer answer' s t)
    (hu : Carries s u) :
  ∃ d, ReflGen Carries t d ∧ Works answer answer' u d
  := by
  cases ht with
  | left h => exact works_left_carries h hu
  | right h =>
      obtain ⟨d, hd, hwork⟩ := works_left_carries h hu.swap
      refine ⟨d.swap, ?_, hwork.swap⟩
      cases hd with
      | refl => exact .refl
      | single hd => exact .single hd.swap

/-- A spill of the left party and something else that is carried meet. -/
theorem spills_carries
    {x x' : Party B Reply H α} {y : Party B Reply' H' β}
    {t : Parties B Reply Reply' H H' α β} (h : Spills x x') (ht : Carries (x, y) t) :
  Meets Carries (x', y) t
  := by
  cases ht with
  | left h' => exact (meets_spills h h').map (f := fun x => (x, y)) fun _ _ h => .left h
  | right h' => exact ⟨_, .single (.right h'), .single (.left h)⟩
  | @toRight _ _ bs rest hsent hbs =>
      obtain @⟨cs, rest', hbuffer, hcs⟩ := h
      have hmore : x.2.sent ++ cs = bs ++ (rest ++ cs) := by rw [hsent, List.append_assoc]
      exact ⟨_, .single (.toRight hmore hbs),
        .single (.left (.spill (x := x.unsend rest) hbuffer hcs))⟩
  | toLeft hsent hbs =>
      obtain @⟨cs, rest', hbuffer, hcs⟩ := h
      exact ⟨_, .single (.toLeft hsent hbs),
        .single (.left (.spill (x := x.receive _) hbuffer hcs))⟩

/-- A delivery to the right and something else that is carried meet. -/
theorem delivers_carries
    {s t u : Parties B Reply Reply' H H' α β} (ht : Delivers s t) (hu : Carries s u) :
  Meets Carries t u
  := by
  have hcarries : ∀ {s t : Parties B Reply Reply' H H' α β}, Delivers s t → Carries s t := by
    rintro _ _ ⟨hsent, hbs⟩
    exact .toRight hsent hbs
  cases hu with
  | left h => exact (spills_carries h (hcarries ht)).symm
  | right h =>
      have hmeets := (spills_carries h (hcarries ht).swap).symm
      exact hmeets.map (f := Prod.swap) fun _ _ h => h.swap
  | toRight hsent hbs =>
      exact (meets_delivers ht (.toRight hsent hbs)).mono fun _ _ h => hcarries h
  | @toLeft x y cs rest' hsent hcs =>
      obtain @⟨_, _, bs, rest, hsent', hbs⟩ := ht
      exact ⟨_, .single (.toLeft (x := x.unsend rest) (y := y.receive bs) hsent hcs),
        .single (.toRight (x := x.receive _) (y := y.unsend _) hsent' hbs)⟩

theorem carries_carries
    {s t u : Parties B Reply Reply' H H' α β} (ht : Carries s t) (hu : Carries s u) :
  Meets Carries t u
  := by
  cases ht with
  | left h => exact spills_carries h hu
  | toRight hsent hbs => exact delivers_carries (.toRight hsent hbs) hu
  | right h => exact (spills_carries h hu.swap).map (f := Prod.swap) fun _ _ h => h.swap
  | toLeft hsent hbs =>
      exact (delivers_carries (.toRight hsent hbs) hu.swap).map (f := Prod.swap)
        fun _ _ h => h.swap

theorem commuting
    (answer : H → (x : X) → Option (Reply x × H))
    (answer' : H' → (y : Y) → Option (Reply' y × H')) :
  Commuting (A := Parties B Reply Reply' H H' α β) (Works answer answer') Carries
  := ⟨works_works, works_carries, carries_carries⟩

/-! ### Runs come to an end -/

/-- How far what was written is from where it is read. -/
def distance (s : Parties B Reply Reply' H H' α β) : ℕ :=
  2 * s.1.2.buffer.length + s.1.2.sent.length + (2 * s.2.2.buffer.length + s.2.2.sent.length)

theorem distance_lt
    {s t : Parties B Reply Reply' H H' α β} (h : Carries s t) :
  distance t < distance s
  := by
  have hspill : ∀ {Z : Type} {R : Z → Type} {K γ : Type} {x x' : Party B R K γ}, Spills x x' →
      2 * x'.2.buffer.length + x'.2.sent.length < 2 * x.2.buffer.length + x.2.sent.length := by
    intro Z R K γ x x' h
    obtain @⟨bs, rest, hbuffer, hbs⟩ := h
    have hpos := List.length_pos_iff.mpr hbs
    rw [hbuffer]
    simp only [List.length_append]
    omega
  cases h with
  | left h =>
      have := hspill h
      simp only [distance]
      omega
  | right h =>
      have := hspill h
      simp only [distance]
      omega
  | @toRight _ _ bs rest hsent hbs =>
      have hpos := List.length_pos_iff.mpr hbs
      simp only [distance, Party.unsend, Party.receive, hsent, List.length_append]
      omega
  | @toLeft _ _ bs rest hsent hbs =>
      have hpos := List.length_pos_iff.mpr hbs
      simp only [distance, Party.unsend, Party.receive, hsent, List.length_append]
      omega

/-- Whatever happens, the parties come to `f` at some time. -/
structure MustReach (answer : H → (x : X) → Option (Reply x × H))
    (answer' : H' → (y : Y) → Option (Reply' y × H'))
    (s f : Parties B Reply Reply' H H' α β) : Prop where
  /-- No run goes on forever. -/
  finite : Acc (fun u t => Step answer answer' t u) s
  /-- No run is stuck anywhere else. -/
  reaches : ∀ t, Reaches answer answer' s t → Reaches answer answer' t f

/-- When one run is over at some time, every run comes to the same end. -/
theorem Reaches.mustReach
    {s f : Parties B Reply Reply' H H' α β} {a : α} {b : β}
    (hf : Reaches answer answer' s f) (hover : Over f a b) :
  MustReach answer answer' s f
  := by
  have hstep : (fun u t : Parties B Reply Reply' H H' α β => Step answer answer' t u) =
      fun u t => Works answer answer' t u ∨ Carries t u := by
    funext u t
    exact propext step_iff
  constructor
  · rw [hstep]
    apply (commuting answer answer').acc_of_reaches (f := f)
    · exact Subrelation.wf distance_lt (measure distance).wf
    · exact fun x hx => hover.not_step (step_iff.mpr hx)
    · exact ReflTransGen.mono (fun _ _ h => step_iff.mp h) _ _ hf
  · exact fun t ht => hf.of_over hover ht

end Duplex
