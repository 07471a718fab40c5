import Mathlib.Data.Set.Basic
import Mathlib.Logic.Relation

/-!
# Work that commutes

Some of the steps of a system are its work, and the other ones only carry things along, which
cannot go on forever. When no step undoes what another one would have done, all runs do the work of
one run that comes to an end. So none of them goes on forever.
-/

open Relation

variable {A : Type*} {work carry : A → A → Prop}

/-- Steps that work and steps that carry are done in any order. A step that works is never made
superfluous by another one, unless the two are the same. -/
structure Commuting (work carry : A → A → Prop) : Prop where
  works : ∀ {a b c}, work a b → work a c → b = c ∨ ∃ d, work b d ∧ work c d
  mixed : ∀ {a b c}, work a b → carry a c → ∃ d, ReflGen carry b d ∧ work c d
  carries : ∀ {a b c}, carry a b → carry a c → ∃ d, ReflGen carry b d ∧ ReflGen carry c d

/-- Some run from the state does `n` steps of work and comes to `f`. -/
inductive WorksTo (work carry : A → A → Prop) (f : A) : ℕ → A → Prop where
  | rest : WorksTo work carry f 0 f
  | work {n : ℕ} {a b : A} (h : work a b) (hb : WorksTo work carry f n b) :
      WorksTo work carry f (n + 1) a
  | carry {n : ℕ} {a b : A} (h : carry a b) (hb : WorksTo work carry f n b) :
      WorksTo work carry f n a

/-- Every run does some number of steps of work. -/
theorem exists_worksTo
    {a f : A} (h : ReflTransGen (fun a b => work a b ∨ carry a b) a f) :
  ∃ n, WorksTo work carry f n a
  := by
  induction h using ReflTransGen.head_induction_on with
  | refl => exact ⟨0, .rest⟩
  | head hstep _ ih =>
      obtain ⟨n, hn⟩ := ih
      rcases hstep with hstep | hstep
      · exact ⟨n + 1, .work hstep hn⟩
      · exact ⟨n, .carry hstep hn⟩

namespace Commuting

variable {n : ℕ} {a b f : A}

/-- After a step that carries there is as much to do. -/
theorem worksTo_carry
    (hcomm : Commuting work carry) (hf : ∀ x, ¬ carry f x) (h : WorksTo work carry f n a)
    (hb : carry a b) :
  WorksTo work carry f n b
  := by
  have hrefl : ∀ {n c d}, ReflGen carry c d → WorksTo work carry f n d →
      WorksTo work carry f n c := by
    intro n c d hcd hd
    cases hcd with
    | refl => exact hd
    | single hcd => exact .carry hcd hd
  induction h generalizing b with
  | rest => exact absurd hb (hf b)
  | work hwork hrest ih =>
      obtain ⟨d, hd, hbd⟩ := hcomm.mixed hwork hb
      cases hd with
      | refl => exact .work hbd hrest
      | single hd => exact .work hbd (ih hd)
  | carry hcarry hrest ih =>
      obtain ⟨d, hd, hbd⟩ := hcomm.carries hcarry hb
      apply hrefl hbd
      cases hd with
      | refl => exact hrest
      | single hd => exact ih hd

/-- After a step of work there is one step less to do. -/
theorem worksTo_work
    (hcomm : Commuting work carry) (hf : ∀ x, ¬ work f x) (h : WorksTo work carry f n a)
    (hb : work a b) :
  ∃ m, n = m + 1 ∧ WorksTo work carry f m b
  := by
  induction h generalizing b with
  | rest => exact absurd hb (hf b)
  | @work n _ _ hwork hrest ih =>
      refine ⟨n, rfl, ?_⟩
      rcases hcomm.works hwork hb with rfl | ⟨d, hd, hbd⟩
      · exact hrest
      · obtain ⟨m, rfl, hm⟩ := ih hd
        exact .work hbd hm
  | carry hcarry _ ih =>
      obtain ⟨d, hd, hcd⟩ := hcomm.mixed hb hcarry
      obtain ⟨m, rfl, hm⟩ := ih hcd
      refine ⟨m, rfl, ?_⟩
      cases hd with
      | refl => exact hm
      | single hd => exact .carry hd hm

/-- When one run comes to an end, no run goes on forever. -/
theorem acc_of_reaches
    (hcomm : Commuting work carry) (hwf : WellFounded fun b a => carry a b)
    (hf : ∀ x, ¬ (work f x ∨ carry f x))
    (h : ReflTransGen (fun a b => work a b ∨ carry a b) a f) :
  Acc (fun b a => work a b ∨ carry a b) a
  := by
  obtain ⟨n, hn⟩ := exists_worksTo h
  clear h
  -- by the work that is left, and then by what is left to carry
  induction n using Nat.strong_induction_on generalizing a with
  | h n ih =>
      induction a using hwf.induction with
      | _ a ihcarry =>
          constructor
          rintro b (hb | hb)
          · obtain ⟨m, rfl, hm⟩ := hcomm.worksTo_work (fun x hx => hf x (.inl hx)) hn hb
            exact ih m (Nat.lt_succ_self m) hm
          · exact ihcarry b hb (hcomm.worksTo_carry (fun x hx => hf x (.inr hx)) hn hb)

end Commuting
