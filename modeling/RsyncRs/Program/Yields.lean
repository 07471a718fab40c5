import RsyncRs.Program.Triple

/-!
# What procedures return

A procedure may be known by what it returns, whatever else happens.
-/

namespace Proc

variable {B X : Type} {Reply : X → Type} {ε W : Type} {α β S A : Type}
  {act : W → (c : Act B X) → Answer Reply c → W → Prop}

/-- What the procedure returns satisfies `Q`. -/
structure Yields (act : W → (c : Act B X) → Answer Reply c → W → Prop) (p : Proc B Reply ε α)
    (Q : α → Prop) : Prop where
  returns : ∀ w a w', Prog.Ends act p.run w (.ok a) w' → Q a

namespace Yields

theorem mono
    {p : Proc B Reply ε α} {Q Q' : α → Prop} (h : Yields act p Q) (hQ : ∀ a, Q a → Q' a) :
  Yields act p Q'
  := ⟨fun w a w' hr => hQ a (h.returns w a w' hr)⟩

theorem pure
    {Q : α → Prop} {a : α} (h : Q a) :
  Yields act (Pure.pure a : Proc B Reply ε α) Q
  := by
  constructor
  intro w a' w' hr
  obtain ⟨heq, -⟩ := Prog.Ends.of_ret hr
  cases heq
  exact h

theorem throw
    {Q : α → Prop} {e : ε} :
  Yields act (MonadExcept.throw e : Proc B Reply ε α) Q
  := by
  constructor
  intro w a w' hr
  obtain ⟨heq, -⟩ := Prog.Ends.of_ret hr
  cases heq

theorem bind
    {p : Proc B Reply ε α} {f : α → Proc B Reply ε β} {Q : α → Prop} {R : β → Prop}
    (hp : Yields act p Q) (hf : ∀ a, Q a → Yields act (f a) R) :
  Yields act (p >>= f) R
  := by
  constructor
  intro w b w' hr
  obtain ⟨x, w₁, hx, hend⟩ := Prog.Ends.bind_inv hr
  cases x with
  | ok a => exact (hf a (hp.returns w a w₁ hx)).returns w₁ b w' hend
  | error e =>
      obtain ⟨heq, -⟩ := Prog.Ends.of_ret hend
      cases heq

theorem host
    {x : X} {Q : Reply x → Prop} (h : ∀ w r w', act w (.host x) r w' → Q r) :
  Yields act (Proc.host x : Proc B Reply ε (Reply x)) Q
  := by
  constructor
  intro w r w' hr
  have hsafe : Safe act (fun _ _ => True) (Proc.host x : Proc B Reply ε (Reply x))
      (fun r _ => Q r) (fun _ _ => True) w := safe_host trivial fun r w' hact => h w r w' hact
  exact Prog.Safe.ends hsafe hr

theorem anything
    (p : Proc B Reply ε α) :
  Yields act p fun _ => True
  := ⟨fun _ _ _ _ => trivial⟩

theorem ite
    {p q : Proc B Reply ε α} {c : Prop} [Decidable c] {Q : α → Prop} (hp : c → Yields act p Q)
    (hq : ¬ c → Yields act q Q) :
  Yields act (if c then p else q) Q
  := by
  split
  · next h => exact hp h
  · next h => exact hq h

end Yields

end Proc
