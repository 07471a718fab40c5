import RsyncRs.Program.Run

/-!
# Programs over a layer

A layer carries out each command of a program by a program of its own, with a memory that it keeps
from one command to the next. What a program does in an environment it does over a layer in another
one, when the layer carries out there what the first environment answers.
-/

namespace Prog

variable {C D : Type} {R : C → Type} {T : D → Type} {M V W α β S A : Type}

/-- What a round of a loop returns, with the memory of the layer. -/
def keeping : (S ⊕ A) × M → (S × M) ⊕ (A × M)
  | (.inl s, m) => .inl (s, m)
  | (.inr a, m) => .inr (a, m)

/-- The program with its commands carried out by the layer. It returns the memory, too. -/
def through (layer : M → (c : C) → Prog T (R c × M)) : {α : Type} → Prog R α → M → Prog T (α × M)
  | _, .ret a, m => .ret (a, m)
  | _, .call c k, m => layer m c >>= fun x => through layer (k x.1) x.2
  | _, .loop body s k, m =>
    .loop (fun x => through layer (body x.1) x.2 >>= fun y => .ret (keeping y)) (s, m) fun y =>
      through layer (k y.1) y.2

variable {layer : M → (c : C) → Prog T (R c × M)}

theorem through_bind
    (p : Prog R α) (f : α → Prog R β) (m : M) :
  through layer (p >>= f) m = through layer p m >>= fun x => through layer (f x.1) x.2
  := by
  induction p generalizing m with
  | ret a => rfl
  | call c k ih =>
      rw [call_bind, through, through, bind_assoc]
      congr
      funext x
      exact ih _ _ _
  | loop body s k _ ih =>
      rw [loop_bind, through, through, loop_bind]
      congr
      funext y
      exact ih _ _ _

/-- One round of a loop over a layer. -/
theorem through_unroll
    (body : S → Prog R (S ⊕ A)) (s : S) (k : A → Prog R α) (m : M) :
  through layer (unroll body s k) m =
    unroll (fun x => through layer (body x.1) x.2 >>= fun y => .ret (keeping y)) (s, m)
      fun y => through layer (k y.1) y.2
  := by
  rw [unroll, unroll, through_bind, bind_assoc]
  congr
  funext x
  obtain ⟨r, m⟩ := x
  cases r with
  | inl s => rfl
  | inr a => rfl

variable {act : V → (c : C) → R c → V → Prop} {act' : W → (d : D) → T d → W → Prop}

/-- The layer carries out in the second environment what the first one answers. The relation says
which states of the first environment, of the memory and of the second environment belong
together. -/
def CarriesOut (layer : M → (c : C) → Prog T (R c × M)) (act : V → (c : C) → R c → V → Prop)
    (act' : W → (d : D) → T d → W → Prop) (rel : V → M → W → Prop) : Prop :=
  ∀ v m w c r v', rel v m w → act v c r v' →
    ∃ m' w', Ends act' (layer m c) w (r, m') w' ∧ rel v' m' w'

variable {rel : V → M → W → Prop}

/-- A step of a program is a stretch of the program over a layer. -/
theorem Step.through
    (hlayer : CarriesOut layer act act' rel) {x y : Prog R α × V} {m : M} {w : W}
    (h : Step act x y) (hrel : rel x.2 m w) :
  ∃ m' w', Reaches act' (x.1.through layer m, w) (y.1.through layer m', w') ∧ rel y.2 m' w'
  := by
  cases h with
  | call hact =>
      obtain ⟨m', w', hends, hrel'⟩ := hlayer _ _ _ _ _ _ hrel hact
      exact ⟨m', w', Reaches.bind hends _, hrel'⟩
  | loop =>
      refine ⟨m, w, ?_, hrel⟩
      dsimp only
      rw [through_unroll, Prog.through]
      exact Relation.ReflTransGen.single .loop

end Prog
