import Mathlib.Algebra.Order.Group.Unbundled.Abs
import RsyncRs.Io.Marked

/-!
# Numbers that are written are read back

Whatever follows them, the bytes of a number are read as that number, and not one byte more is
read. The indices of files are coded by their differences. Both sides keep the same account of the
indices before.
-/

variable {H X : Type} {Reply : X → Type} {answer : H → (x : X) → Option (Reply x × H)}

/-! ### Indices one after the other -/

/-- Write file indices one after the other, and return the state after each. -/
def writeNdxs (s : NdxState) : List ℤ → Session Reply (List NdxState)
  | [] => pure []
  | ndx :: ndxs => do
    let s ← writeNdx s ndx
    let states ← writeNdxs s ndxs
    pure (s :: states)

/-- Read file indices one after the other, and return each with the state after it. -/
def readNdxs (s : NdxState) : ℕ → Session Reply (List (ℤ × NdxState))
  | 0 => pure []
  | n + 1 => do
    let (ndx, s) ← readNdx s
    let rest ← readNdxs s n
    pure ((ndx, s) :: rest)

/-- From equal states, what is written is read back, and the states stay equal. -/
theorem reads_writeNdxs
    (s : NdxState) {ndxs : List ℤ} (h : ∀ ndx ∈ ndxs, |ndx| < 2147483647) :
  ∃ bs states, states.length = ndxs.length ∧
    Proc.Writes answer (writeNdxs s ndxs : Session Reply _) bs states ∧
    Proc.Reads answer (readNdxs s ndxs.length : Session Reply _) bs (ndxs.zip states)
  := by
  induction ndxs generalizing s with
  | nil => exact ⟨[], [], rfl, Proc.writes_pure _, Proc.reads_pure _⟩
  | cons ndx ndxs ih =>
      obtain ⟨bs, states, hlen, hwrites, hreads⟩ :=
        ih (encodeNdx s ndx).2 fun n hn => h n (List.mem_cons_of_mem _ hn)
      obtain ⟨hlow, hhigh⟩ := abs_lt.mp (h ndx List.mem_cons_self)
      refine ⟨(encodeNdx s ndx).1 ++ bs, (encodeNdx s ndx).2 :: states, ?_, ?_, ?_⟩
      · rw [List.length_cons, List.length_cons, hlen]
      · apply (writes_writeNdx s ndx).bind
        exact hwrites.map fun states => (encodeNdx s ndx).2 :: states
      · apply (reads_readNdx s (by omega) (by omega)).bind
        exact hreads.map fun rest => (ndx, (encodeNdx s ndx).2) :: rest

/-- Indices that are written from the start of a connection are read back in order, from exactly
the bytes that were written, and after each of them both sides are in the same state. -/
theorem ndxs_roundTrip
    (ndxs : List ℤ) (h : ∀ ndx ∈ ndxs, |ndx| < 2147483647) :
  ∃ bs states, states.length = ndxs.length ∧
    Proc.Writes answer (writeNdxs {} ndxs : Session Reply _) bs states ∧
    Proc.Reads answer (readNdxs {} ndxs.length : Session Reply _) bs (ndxs.zip states)
  := reads_writeNdxs {} h

/-- Indices that rise, fall and are repeated. -/
theorem ndxs_roundTrip_mixed :
  ∃ bs states, states.length = 5 ∧
    Proc.Writes noHost (writeNdxs {} [7, -1, -5, 70000, 7] : Session _ _) bs states ∧
    Proc.Reads noHost (readNdxs {} 5 : Session _ _) bs ([7, -1, -5, 70000, 7].zip states)
  := ndxs_roundTrip [7, -1, -5, 70000, 7] (by decide)

/-! ### Numbers of variable width -/

theorem writes_writeLongint
    (x : ℤ) :
  Proc.Writes answer (writeLongint x : Session Reply Unit)
    (if 0 ≤ x ∧ x ≤ 2147483647 then leBytes 4 x else [0xFF, 0xFF, 0xFF, 0xFF] ++ leBytes 8 x) ()
  := by
  unfold writeLongint
  split
  · exact writes_writeAll _
  · apply (writes_writeAll _).bind
    exact writes_writeAll _

/-- A number is read from four bytes, or from eight after a mark that is no number. -/
theorem reads_readLongint
    {x : ℤ} (hx : IsI64 x) :
  Proc.Reads answer (readLongint : Session Reply ℤ)
    (if 0 ≤ x ∧ x ≤ 2147483647 then leBytes 4 x else [0xFF, 0xFF, 0xFF, 0xFF] ++ leBytes 8 x) x
  := by
  unfold readLongint
  split
  · next hsmall =>
    have hx32 : IsI32 x := by
      unfold IsI32
      omega
    apply (reads_readInt hx32).bind_nil
    rw [if_pos (by omega)]
    apply Proc.reads_pure
  · have hmark : IsI32 (-1) := by decide
    have hbytes : leBytes 4 (-1) = [0xFF, 0xFF, 0xFF, 0xFF] := by decide
    rw [← hbytes]
    apply (reads_readInt hmark).bind
    rw [if_neg (by decide)]
    apply (reads_readBytes (leBytes 8 x) (length_leBytes 8 x)).map_eq
    exact wrapI64_ofLeBytes_leBytes hx

/-- Numbers of variable width that are written are read back, and what follows them is left. -/
theorem integers_roundTrip
    {x y : ℤ} (hx : IsI32 x) (hy : IsI64 y) {minBytes : ℕ} (hmin : minBytes = 3 ∨ minBytes = 4) :
  (∃ bs, Proc.Writes answer (writeVarint x : Session Reply Unit) bs () ∧
    Proc.Reads answer (readVarint : Session Reply ℤ) bs x) ∧
  (∃ bs, Proc.Writes answer (writeVarlong y minBytes : Session Reply Unit) bs () ∧
    Proc.Reads answer (readVarlong minBytes : Session Reply ℤ) bs y) ∧
  ∃ bs, Proc.Writes answer (writeLongint y : Session Reply Unit) bs () ∧
    Proc.Reads answer (readLongint : Session Reply ℤ) bs y
  := by
  refine ⟨⟨_, writes_writeVarint x, reads_readVarint hx⟩,
    ⟨_, writes_writeVarlong y minBytes, reads_readVarlong (by omega) (by omega) hy⟩,
    ⟨_, writes_writeLongint y, reads_readLongint hy⟩⟩

/-- Negative numbers. -/
theorem integers_roundTrip_negative :
  (∃ bs, Proc.Writes noHost (writeVarint (-1) : Session _ Unit) bs () ∧
    Proc.Reads noHost (readVarint : Session _ ℤ) bs (-1)) ∧
  (∃ bs, Proc.Writes noHost (writeVarlong (-70000) 3 : Session _ Unit) bs () ∧
    Proc.Reads noHost (readVarlong 3 : Session _ ℤ) bs (-70000)) ∧
  ∃ bs, Proc.Writes noHost (writeLongint (-70000) : Session _ Unit) bs () ∧
    Proc.Reads noHost (readLongint : Session _ ℤ) bs (-70000)
  := integers_roundTrip (by decide) (by decide) (Or.inl rfl)
