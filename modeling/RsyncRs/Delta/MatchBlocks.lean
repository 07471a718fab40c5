import Mathlib.Data.List.GetD
import RsyncRs.Delta.Sums

/-!
# Search for matching blocks

The search slides a window of one block over the data. Where the rolling checksum and the
strong checksum of the window are those of a full block of the basis, the window is replaced
by a reference to that block.
-/

/-! ### Hash table -/

/-- Checksums of the blocks of the basis, by rolling checksum. -/
structure BlockHashTable where
  /-- Index and strong checksum of the blocks with a rolling checksum. -/
  table : UInt32 → Option (List (ℕ × List UInt8))
  /-- Head of the checksums. -/
  head : SumHead
  /-- The checksums. -/
  sums : List SumBuf

namespace BlockHashTable

/-- Put an entry at the end of those with the key. -/
def push (table : UInt32 → Option (List (ℕ × List UInt8))) (key : UInt32)
    (entry : ℕ × List UInt8) : UInt32 → Option (List (ℕ × List UInt8)) :=
  fun k => if k = key then some ((table key).getD [] ++ [entry]) else table k

/-- Enter the blocks from the block `idx` on. -/
def fill (table : UInt32 → Option (List (ℕ × List UInt8))) :
    ℕ → List SumBuf → UInt32 → Option (List (ℕ × List UInt8))
  | _, [] => table
  | idx, s :: sums => fill (push table s.sum1 (idx, s.sum2)) (idx + 1) sums

/-- The table of the given checksums. -/
def build (head : SumHead) (sums : List SumBuf) : BlockHashTable :=
  { table := fill (fun _ => none) 0 sums, head := head, sums := sums }

/-- The blocks with the rolling checksum `sum1`. -/
def findRolling (t : BlockHashTable) (sum1 : UInt32) : Option (List (ℕ × List UInt8)) :=
  t.table sum1

end BlockHashTable

/-! ### Search -/

/-- A piece of the data: literal bytes or a block of the basis. -/
inductive DeltaOp where
  /-- Bytes of the data. -/
  | literal (offset len : ℕ)
  /-- A block of the basis, and where it is in the data. -/
  | blockMatch (blockIdx offset : ℕ)
deriving DecidableEq, Repr

/-- The window of `blength` bytes at `offset`. -/
def window (data : List UInt8) (blength offset : ℕ) : List UInt8 :=
  (data.drop offset).take blength

/-- The strong checksum of a window, if one is asked for. -/
def windowStrong (dig : Digests) (strongLen seed : ℕ) (win : List UInt8) :
    Option (List UInt8) :=
  if 0 < strongLen then
    let digest := dig.md5 (win ++ seedBytes seed)
    some (digest.take (min strongLen digest.length))
  else
    none

/-- The first candidate that is a full block with the strong checksum of the window. -/
def matchedIdx (sums : List SumBuf) (blength strongLen : ℕ) (strong : Option (List UInt8)) :
    List (ℕ × List UInt8) → Except Error (Option ℕ)
  | [] => pure none
  | (idx, storedSum2) :: candidates =>
    match sums[idx]? with
    | none => throw (.panic "index out of bounds")
    | some s =>
      if asUsize s.len ≠ blength then
        matchedIdx sums blength strongLen strong candidates
      else
        match strong with
        | none => pure (some idx)
        | some digest =>
          let cmpLen := min strongLen storedSum2.length
          if digest.length < cmpLen then
            throw (.panic "range end index out of range for slice")
          else if digest.take cmpLen = storedSum2.take cmpLen then
            pure (some idx)
          else
            matchedIdx sums blength strongLen strong candidates

/-- The block of the basis that the window with rolling checksum `sum` matches. -/
def matchAt (dig : Digests) (table : BlockHashTable) (blength strongLen seed : ℕ)
    (win : List UInt8) (sum : UInt32) : Except Error (Option ℕ) :=
  match table.findRolling sum with
  | none => pure none
  | some candidates =>
    matchedIdx table.sums blength strongLen (windowStrong dig strongLen seed win) candidates

/-- The bytes from `lastMatch` up to `offset`. Their number is kept in 32 bits. -/
def literalUpTo (lastMatch offset : ℕ) : List DeltaOp :=
  if lastMatch < offset then
    [.literal lastMatch ((offset - lastMatch) % 4294967296)]
  else
    []

/-- The search with the window at `offset`, when the data before `lastMatch` are covered. -/
def findMatchesFrom (dig : Digests) (data : List UInt8) (table : BlockHashTable)
    (strongLen seed blength : ℕ) (hb : 0 < blength) (rc : RollingChecksum)
    (offset lastMatch : ℕ) : Except Error (List DeltaOp) := do
  match ← matchAt dig table blength strongLen seed (window data blength offset) rc.value with
  | some blockIdx =>
    let ops := literalUpTo lastMatch offset ++ [.blockMatch blockIdx offset]
    let next := offset + blength
    if next + blength ≤ data.length then
      let rest ← findMatchesFrom dig data table strongLen seed blength hb
        (RollingChecksum.init (window data blength next)) next next
      pure (ops ++ rest)
    else
      pure (ops ++ literalUpTo next data.length)
  | none =>
    if data.length - blength ≤ offset then
      pure (literalUpTo lastMatch data.length)
    else
      findMatchesFrom dig data table strongLen seed blength hb
        (rc.roll (data.getD offset 0) (data.getD (offset + blength) 0)) (offset + 1) lastMatch
termination_by data.length - offset
decreasing_by
  · omega
  · omega

/-- The pieces of `data`, with references to the blocks in the table. -/
def findMatchesSeeded (dig : Digests) (data : List UInt8) (table : BlockHashTable)
    (strongLen seed : ℕ) : Except Error (List DeltaOp) :=
  let blength := asUsize table.head.blength
  if hb : 0 < blength then
    if data.length < blength then
      pure (literalUpTo 0 data.length)
    else
      findMatchesFrom dig data table strongLen seed blength hb
        (RollingChecksum.init (window data blength 0)) 0 0
  else
    pure (literalUpTo 0 data.length)

/-! ### Candidates -/

/-- The entries of the table are blocks with their checksums. -/
def BlockHashTable.Sound (sums : List SumBuf)
    (table : UInt32 → Option (List (ℕ × List UInt8))) : Prop :=
  ∀ key entries, table key = some entries → ∀ e ∈ entries,
    ∃ s, sums[e.1]? = some s ∧ s.sum1 = key ∧ s.sum2 = e.2

theorem BlockHashTable.Sound.push
    {sums : List SumBuf} {table : UInt32 → Option (List (ℕ × List UInt8))} (h : Sound sums table)
    {idx : ℕ} {s : SumBuf} (hs : sums[idx]? = some s) :
  Sound sums (push table s.sum1 (idx, s.sum2))
  := by
  intro key entries hk e he
  unfold BlockHashTable.push at hk
  split at hk
  · next hkey =>
    cases hk
    rcases List.mem_append.mp he with he | he
    · cases ht : table s.sum1 with
      | none =>
          rw [ht] at he
          cases he
      | some es =>
          rw [ht] at he
          rw [hkey]
          apply h _ _ ht e he
    · cases List.mem_singleton.mp he
      use s, hs, hkey.symm
  · apply h key entries hk e he

theorem BlockHashTable.sound_fill
    {done rest : List SumBuf} {table : UInt32 → Option (List (ℕ × List UInt8))}
    (h : Sound (done ++ rest) table) :
  Sound (done ++ rest) (fill table done.length rest)
  := by
  induction rest generalizing done table with
  | nil => apply h
  | cons s rest ih =>
      have hs : (done ++ s :: rest)[done.length]? = some s := by simp
      have hp := h.push hs
      rw [List.append_cons] at hp ⊢
      have hlen : (done ++ [s]).length = done.length + 1 := by simp
      rw [fill, ← hlen]
      apply ih hp

theorem BlockHashTable.sound_build
    (head : SumHead) (sums : List SumBuf) :
  Sound sums (build head sums).table
  := by
  have h : Sound ([] ++ sums) fun _ => none := by
    intro key entries hk
    cases hk
  apply sound_fill h

/-- The window is a full block by both checksums. -/
structure SameSums (dig : Digests) (sums : List SumBuf) (blength strongLen seed : ℕ)
    (win : List UInt8) (idx : ℕ) (s : SumBuf) : Prop where
  get : sums[idx]? = some s
  len : asUsize s.len = blength
  rolling : checksum1 win = s.sum1
  strong : 0 < strongLen →
    (dig.md5 (win ++ seedBytes seed)).take (min strongLen s.sum2.length) =
      s.sum2.take (min strongLen s.sum2.length)

/-- The search among the candidates does not fail, and what it finds is a full block by both
checksums. -/
theorem matchedIdx_spec
    (dig : Digests) {sums : List SumBuf} {blength strongLen seed : ℕ} {win : List UInt8}
    (hshort : ∀ s ∈ sums, s.sum2.length ≤ 16) {candidates : List (ℕ × List UInt8)}
    (hc : ∀ e ∈ candidates, ∃ s, sums[e.1]? = some s ∧ s.sum1 = checksum1 win ∧ s.sum2 = e.2) :
  ∃ found, matchedIdx sums blength strongLen (windowStrong dig strongLen seed win) candidates =
      .ok found ∧
    ∀ idx ∈ found, ∃ s, SameSums dig sums blength strongLen seed win idx s
  := by
  induction candidates with
  | nil =>
      use none, rfl
      intro idx h
      cases h
  | cons e candidates ih =>
      obtain ⟨idx, stored⟩ := e
      obtain ⟨s, hs, hsum, rfl⟩ := hc _ List.mem_cons_self
      have ih' := ih fun e he => hc e (List.mem_cons_of_mem _ he)
      unfold matchedIdx
      simp only [hs]
      by_cases hlen : asUsize s.len = blength
      · rw [if_neg (not_not.mpr hlen)]
        unfold windowStrong at ih' ⊢
        by_cases hstrong : 0 < strongLen
        · rw [if_pos hstrong] at ih' ⊢
          dsimp only at ih' ⊢
          have h16 := hshort s (List.mem_of_getElem? hs)
          rw [dig.length_md5] at ih' ⊢
          have hmin : min (min strongLen s.sum2.length) (min strongLen 16) =
              min strongLen s.sum2.length := by omega
          rw [if_neg (by rw [List.length_take, dig.length_md5]; omega), List.take_take, hmin]
          split
          · next heq =>
            use some idx, rfl
            intro j hj
            cases hj
            use s
            apply SameSums.mk hs hlen hsum.symm
            intro _
            apply heq
          · apply ih'
        · rw [if_neg hstrong]
          use some idx, rfl
          intro j hj
          cases hj
          use s
          apply SameSums.mk hs hlen hsum.symm
          intro h
          apply absurd h hstrong
      · rw [if_pos hlen]
        apply ih'

/-- A window is matched with a full block by both checksums, or with none. -/
theorem matchAt_spec
    (dig : Digests) (head : SumHead) {sums : List SumBuf}
    (hshort : ∀ s ∈ sums, s.sum2.length ≤ 16) (blength strongLen seed : ℕ)
    (win : List UInt8) :
  ∃ found, matchAt dig (BlockHashTable.build head sums) blength strongLen seed win
      (checksum1 win) = .ok found ∧
    ∀ idx ∈ found, ∃ s, SameSums dig sums blength strongLen seed win idx s
  := by
  unfold matchAt
  split
  · use none, rfl
    intro idx h
    cases h
  · next candidates hc =>
    apply matchedIdx_spec dig hshort
    apply BlockHashTable.sound_build head sums _ _ hc

/-! ### The pieces cover the data -/

/-- The pieces cover the data from `pos` up to `len`. A literal is recorded with the low 32
bits of its length, and every block satisfies `good`. -/
def Covers (good : ℕ → ℕ → Prop) (blength len : ℕ) : ℕ → List DeltaOp → Prop
  | pos, [] => pos = len
  | pos, .literal offset l :: ops =>
    offset = pos ∧ ∃ n, 0 < n ∧ l = n % 4294967296 ∧ pos + n ≤ len ∧
      Covers good blength len (pos + n) ops
  | pos, .blockMatch blockIdx offset :: ops =>
    offset = pos ∧ pos + blength ≤ len ∧ good blockIdx pos ∧
      Covers good blength len (pos + blength) ops

theorem Covers.mono
    {good good' : ℕ → ℕ → Prop} {blength len pos : ℕ} {ops : List DeltaOp}
    (h : Covers good blength len pos ops)
    (hgood : ∀ idx pos, pos + blength ≤ len → good idx pos → good' idx pos) :
  Covers good' blength len pos ops
  := by
  induction ops generalizing pos with
  | nil => apply h
  | cons op ops ih =>
      cases op with
      | literal offset l =>
          obtain ⟨rfl, n, hn, hl, hle, hrest⟩ := h
          apply And.intro rfl ⟨n, hn, hl, hle, ih hrest⟩
      | blockMatch idx offset =>
          obtain ⟨rfl, hle, hidx, hrest⟩ := h
          apply And.intro rfl ⟨hle, hgood _ _ hle hidx, ih hrest⟩

theorem covers_literalUpTo
    {good : ℕ → ℕ → Prop} {blength len pos next : ℕ} {ops : List DeltaOp} (hpos : pos ≤ next)
    (hnext : next ≤ len) (h : Covers good blength len next ops) :
  Covers good blength len pos (literalUpTo pos next ++ ops)
  := by
  unfold literalUpTo
  split
  · refine ⟨rfl, next - pos, by omega, rfl, by omega, ?_⟩
    rw [Nat.add_sub_cancel' hpos]
    apply h
  · have he : pos = next := by omega
    rw [he]
    apply h

theorem covers_literal_end
    {good : ℕ → ℕ → Prop} {blength len pos : ℕ} (hpos : pos ≤ len) :
  Covers good blength len pos (literalUpTo pos len)
  := by
  rw [← List.append_nil (literalUpTo pos len)]
  apply covers_literalUpTo hpos (le_refl len)
  rfl

/-- The window after one byte has left it and one has entered. -/
theorem window_slide
    {data : List UInt8} {blength offset : ℕ} (hb : 0 < blength)
    (hoff : offset + blength < data.length) :
  ∃ mid, window data blength offset = data.getD offset 0 :: mid ∧
    window data blength (offset + 1) = mid ++ [data.getD (offset + blength) 0]
  := by
  obtain ⟨b, rfl⟩ : ∃ b, blength = b + 1 := ⟨blength - 1, by omega⟩
  use (data.drop (offset + 1)).take b
  have hoff' : offset < data.length := by omega
  constructor
  · rw [window, List.drop_eq_getElem_cons hoff', List.take_succ_cons,
      List.getD_eq_getElem data 0 hoff']
  · have hidx : offset + 1 + b = offset + (b + 1) := by omega
    rw [window, List.take_add_one, List.getElem?_drop, hidx, List.getElem?_eq_getElem hoff,
      List.getD_eq_getElem data 0 hoff]
    rfl

/-- The search covers the data, and every block it finds is a full block by both
checksums. -/
theorem findMatchesFrom_spec
    (dig : Digests) {data : List UInt8} (head : SumHead) {sums : List SumBuf}
    {strongLen seed blength : ℕ} (hb : 0 < blength) (hshort : ∀ s ∈ sums, s.sum2.length ≤ 16)
    {rc : RollingChecksum} {offset lastMatch : ℕ} (hoff : offset + blength ≤ data.length)
    (hlast : lastMatch ≤ offset) (hrc : rc.Tracks (window data blength offset)) :
  ∃ ops, findMatchesFrom dig data (BlockHashTable.build head sums) strongLen seed blength hb rc
      offset lastMatch = .ok ops ∧
    Covers (fun idx pos => ∃ s, SameSums dig sums blength strongLen seed
      (window data blength pos) idx s) blength data.length lastMatch ops
  := by
  induction hn : data.length - offset using Nat.strong_induction_on
      generalizing rc offset lastMatch with
  | h n ih =>
      obtain ⟨found, hfound, hgood⟩ :=
        matchAt_spec dig head hshort blength strongLen seed (window data blength offset)
      rw [findMatchesFrom, hrc.value_eq, hfound]
      cases found with
      | some idx =>
          have hidx := hgood idx rfl
          simp only [ok_bind]
          split
          · next hnext =>
            obtain ⟨ops, hops, hcov⟩ := ih _ (by omega) hnext (le_refl (offset + blength))
              (RollingChecksum.tracks_init _) rfl
            use literalUpTo lastMatch offset ++ (.blockMatch idx offset :: ops)
            rw [hops]
            constructor
            · simp only [ok_bind, List.append_assoc, List.cons_append, List.nil_append]
              rfl
            · apply covers_literalUpTo hlast (by omega)
              apply And.intro rfl ⟨hoff, hidx, hcov⟩
          · use literalUpTo lastMatch offset ++ (.blockMatch idx offset ::
              literalUpTo (offset + blength) data.length)
            constructor
            · simp only [List.append_assoc, List.cons_append, List.nil_append]
              rfl
            · apply covers_literalUpTo hlast (by omega)
              apply And.intro rfl ⟨hoff, hidx, covers_literal_end hoff⟩
      | none =>
          simp only [ok_bind]
          split
          · use literalUpTo lastMatch data.length, rfl
            apply covers_literal_end
            omega
          · obtain ⟨mid, hmid, hnew⟩ :=
              window_slide hb (show offset + blength < data.length by omega)
            rw [hmid] at hrc
            have hrc' := hrc.roll (data.getD (offset + blength) 0)
            rw [← hnew] at hrc'
            apply ih _ (by omega) (by omega) (by omega) hrc' rfl

/-- The pieces found cover the data, and every block among them is a full block by both
checksums. -/
theorem findMatchesSeeded_spec
    (dig : Digests) (data : List UInt8) (head : SumHead) {sums : List SumBuf}
    (hshort : ∀ s ∈ sums, s.sum2.length ≤ 16) (strongLen seed : ℕ) :
  ∃ ops, findMatchesSeeded dig data (BlockHashTable.build head sums) strongLen seed = .ok ops ∧
    Covers (fun idx pos => ∃ s, SameSums dig sums (asUsize head.blength) strongLen seed
      (window data (asUsize head.blength) pos) idx s) (asUsize head.blength) data.length 0 ops
  := by
  have hlit : ∀ good blength, Covers good blength data.length 0 (literalUpTo 0 data.length) :=
    fun _ _ => covers_literal_end (Nat.zero_le _)
  unfold findMatchesSeeded
  have hhead : (BlockHashTable.build head sums).head = head := rfl
  rw [hhead]
  by_cases hb : 0 < asUsize head.blength
  · simp only [dif_pos hb]
    by_cases hlen : data.length < asUsize head.blength
    · rw [if_pos hlen]
      apply Exists.intro _ ⟨rfl, hlit _ _⟩
    · rw [if_neg hlen]
      apply findMatchesFrom_spec dig head hb hshort
      · rw [Nat.zero_add]
        omega
      · apply le_refl
      · apply RollingChecksum.tracks_init
  · simp only [dif_neg hb]
    apply Exists.intro _ ⟨rfl, hlit _ _⟩
