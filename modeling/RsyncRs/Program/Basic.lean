import Mathlib.Data.Nat.Notation
import Mathlib.Logic.Relation

/-!
# Programs

`Prog R α` is the type of programs that issue commands `c : C`, each answered in `R c`, and
return an element of `α`. A program is a tree: it returns, or it issues a command and goes
on with the answer, or it runs a loop and goes on with what the loop returns. The body of a
loop is itself a program, which from a state returns the next state or the result of the
loop, so a loop may run forever although the tree is well founded.
-/

/-- Programs which issue commands `c`, answered in `R c`, and return in `α`. -/
inductive Prog {C : Type} (R : C → Type) : Type → Type 1 where
  /-- Return `a`. -/
  | ret {α : Type} (a : α) : Prog R α
  /-- Issue the command `c` and go on with its answer. -/
  | call {α : Type} (c : C) (k : R c → Prog R α) : Prog R α
  /-- Run `body` from `s` until it returns on the right, and go on with that. -/
  | loop {S A α : Type} (body : S → Prog R (S ⊕ A)) (s : S) (k : A → Prog R α) : Prog R α

namespace Prog

variable {C : Type} {R : C → Type} {α β γ S A : Type}

/-- Run the first program and go on with what it returns. -/
def bind : {α : Type} → Prog R α → (α → Prog R β) → Prog R β
  | _, .ret a, f => f a
  | _, .call c k, f => .call c fun r => bind (k r) f
  | _, .loop body s k, f => .loop body s fun a => bind (k a) f

instance : Monad (Prog R) where
  pure := .ret
  bind := bind

@[simp]
theorem pure_eq_ret (a : α) :
  (pure a : Prog R α) = .ret a
  := rfl

@[simp]
theorem ret_bind (a : α) (f : α → Prog R β) :
  (Prog.ret a >>= f) = f a
  := rfl

@[simp]
theorem call_bind (c : C) (k : R c → Prog R α) (f : α → Prog R β) :
  (Prog.call c k >>= f) = .call c fun r => k r >>= f
  := rfl

@[simp]
theorem loop_bind (body : S → Prog R (S ⊕ A)) (s : S) (k : A → Prog R α) (f : α → Prog R β) :
  (Prog.loop body s k >>= f) = .loop body s fun a => k a >>= f
  := rfl

theorem bind_ret (p : Prog R α) :
  (p >>= Prog.ret) = p
  := by
  induction p with
  | ret a => rfl
  | call c k ih =>
      rw [call_bind]
      congr
      funext r
      apply ih
  | loop body s k _ ih =>
      rw [loop_bind]
      congr
      funext a
      apply ih

theorem bind_assoc (p : Prog R α) (f : α → Prog R β) (g : β → Prog R γ) :
  (p >>= f >>= g) = p >>= fun a => f a >>= g
  := by
  induction p with
  | ret a => rfl
  | call c k ih =>
      simp only [call_bind]
      congr
      funext r
      apply ih
  | loop body s k _ ih =>
      simp only [loop_bind]
      congr
      funext a
      apply ih

instance : LawfulMonad (Prog R) :=
  LawfulMonad.mk' _ bind_ret ret_bind bind_assoc

/-- The program that issues the command `c` and returns its answer. -/
def perform (c : C) : Prog R (R c) :=
  .call c .ret

/-- The program that runs the loop with body `body` from `s`. -/
def iterate (body : S → Prog R (S ⊕ A)) (s : S) : Prog R A :=
  .loop body s .ret

/-- What a loop does after its body returned: it goes round again, or it goes on with `k`. -/
def again (body : S → Prog R (S ⊕ A)) (k : A → Prog R α) : S ⊕ A → Prog R α
  | .inl s => .loop body s k
  | .inr a => k a

/-- One round of the loop with body `body` from `s`. -/
def unroll (body : S → Prog R (S ⊕ A)) (s : S) (k : A → Prog R α) : Prog R α :=
  body s >>= again body k

end Prog
