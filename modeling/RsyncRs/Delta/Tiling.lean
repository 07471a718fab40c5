import RsyncRs.Delta.Greedy

/-!
# Long literals

The search keeps the length of a literal in 32 bits. Its pieces make up the data exactly when
no stretch of the data without a matching window is 4 GiB long.
-/

/-! ### Stretches without a match -/

/-- A full window starts at `pos`. -/
def WindowFits (blength len pos : ℕ) : Prop :=
  0 < blength ∧ pos + blength ≤ len

/-- No window that starts from `start` up to `stop` has a block. -/
def Unmatched (pick : ℕ → Option ℕ) (blength len start stop : ℕ) : Prop :=
  ∀ pos, start ≤ pos → pos < stop → WindowFits blength len pos → pick pos = none

/-- Positions where a plain scan starts to look for the next match: the start of the data and
the ends of its matches. -/
inductive Reached (pick : ℕ → Option ℕ) (blength len : ℕ) : ℕ → Prop
  | start : Reached pick blength len 0
  | next {start pos idx : ℕ} (h : Reached pick blength len start) (hle : start ≤ pos)
      (hfits : WindowFits blength len pos) (hnone : Unmatched pick blength len start pos)
      (hpick : pick pos = some idx) : Reached pick blength len (pos + blength)

/-- A stretch of the data in which a plain scan finds no match. -/
structure Stretch (pick : ℕ → Option ℕ) (blength len start stop : ℕ) : Prop where
  reached : Reached pick blength len start
  le : start ≤ stop
  inside : stop ≤ len
  unmatched : Unmatched pick blength len start stop

section

variable {pick : ℕ → Option ℕ} {blength len : ℕ}

/-- Every literal of the scan is a stretch without a match. -/
theorem stretch_of_mem
    (hb : 0 < blength) {offset last : ℕ} (hreached : Reached pick blength len last)
    (hlast : last ≤ offset) (hnone : Unmatched pick blength len last offset) {o l : ℕ}
    (hmem : .literal o l ∈ greedyFrom pick blength len hb offset last) :
  Stretch pick blength len o (o + l)
  := by
  fun_induction greedyFrom pick blength len hb offset last with
  | case1 offset last hfits idx hpick ih =>
      rcases List.mem_append.mp hmem with hgap | hrest
      · obtain ⟨hlo, heq⟩ := mem_gap hgap
        cases heq
        rw [Nat.add_sub_cancel' hlast]
        apply Stretch.mk hreached hlast (by omega) hnone
      · rcases List.mem_cons.mp hrest with heq | hrest
        · cases heq
        · apply ih _ (le_refl _) _ hrest
          · apply hreached.next hlast ⟨hb, hfits⟩ hnone hpick
          · intro pos hle hlt
            omega
  | case2 offset last hfits hpick ih =>
      apply ih hreached (by omega) _ hmem
      intro pos hle hlt hfit
      rcases Nat.lt_succ_iff_lt_or_eq.mp hlt with hlt | rfl
      · apply hnone pos hle hlt hfit
      · apply hpick
  | case3 offset last hfits =>
      obtain ⟨hlo, heq⟩ := mem_gap hmem
      cases heq
      rw [Nat.add_sub_cancel' (by omega)]
      apply Stretch.mk hreached (by omega) (le_refl len)
      intro pos hle hlt hfit
      apply hnone pos hle _ hfit
      have := hfit.2
      omega

/-- The scan passes by windows without a block. -/
theorem greedyFrom_skip
    (hb : 0 < blength) {offset pos : ℕ} (last : ℕ) (hle : offset ≤ pos)
    (hfits : WindowFits blength len pos) (hnone : Unmatched pick blength len offset pos) :
  greedyFrom pick blength len hb offset last = greedyFrom pick blength len hb pos last
  := by
  induction hle using Nat.decreasingInduction with
  | self => rfl
  | of_succ offset hlt ih =>
      have hfit : WindowFits blength len offset := ⟨hb, by have := hfits.2; omega⟩
      rw [greedyFrom, if_pos hfit.2, hnone offset (le_refl _) hlt hfit]
      apply ih
      intro q hle
      apply hnone q (by omega)

/-- Where the scan starts to look for a match it starts anew. -/
theorem greedyFrom_of_reached
    (hb : 0 < blength) {pos : ℕ} (h : Reached pick blength len pos) :
  ∃ pre, greedyFrom pick blength len hb 0 0 = pre ++ greedyFrom pick blength len hb pos pos
  := by
  induction h with
  | start =>
      use []
      rfl
  | @next start pos idx _ hle hfits hnone hpick ih =>
      obtain ⟨pre, hpre⟩ := ih
      rw [hpre, greedyFrom_skip hb start hle hfits hnone, greedyFrom, if_pos hfits.2, hpick]
      use pre ++ (gap start pos ++ [.blockMatch idx pos])
      simp

/-- A stretch without a match goes into one literal of the scan. -/
theorem exists_mem_greedyFrom
    (hb : 0 < blength) {offset last stop : ℕ} (hlast : last ≤ offset) (hlt : last < stop)
    (hstop : stop ≤ len) (hnone : Unmatched pick blength len offset stop) :
  ∃ l, .literal last l ∈ greedyFrom pick blength len hb offset last ∧ stop ≤ last + l
  := by
  fun_induction greedyFrom pick blength len hb offset last with
  | case1 offset last hfits idx hpick ih =>
      have hle : stop ≤ offset := by
        by_contra hlt
        have h := hnone offset (le_refl _) (by omega) ⟨hb, hfits⟩
        rw [h] at hpick
        cases hpick
      use offset - last
      constructor
      · apply List.mem_append_left
        rw [gap, if_pos (by omega)]
        apply List.mem_singleton_self
      · omega
  | case2 offset last hfits hpick ih =>
      apply ih (by omega) hlt
      intro pos hle
      apply hnone pos (by omega)
  | case3 offset last hfits =>
      use len - last
      constructor
      · rw [gap, if_pos (by omega)]
        apply List.mem_singleton_self
      · omega

end

/-- The literals of the scan are as short as the stretches without a match. -/
theorem literals_lt_iff
    (dig : Digests) (data : List UInt8) (head : SumHead) (sums : List SumBuf)
    (strongLen seed bound : ℕ) (hbound : 0 < bound) :
  (∀ o l, .literal o l ∈ greedy dig data head sums strongLen seed → l < bound) ↔
    ∀ start stop, Stretch (agreeingAt dig data sums (asUsize head.blength) strongLen seed)
      (asUsize head.blength) data.length start stop → stop - start < bound
  := by
  unfold greedy
  dsimp only
  split
  · next hb =>
    constructor
    · intro h start stop hs
      by_cases hlt : start < stop
      · obtain ⟨pre, hpre⟩ := greedyFrom_of_reached hb hs.reached
        obtain ⟨l, hmem, hle⟩ :=
          exists_mem_greedyFrom hb (le_refl start) hlt hs.inside hs.unmatched
        have hl : l < bound := by
          apply h start l
          rw [hpre]
          apply List.mem_append_right pre hmem
        omega
      · omega
    · intro h o l hmem
      have hs := stretch_of_mem hb .start (le_refl 0) (fun pos hle hlt => by omega) hmem
      have := h o (o + l) hs
      omega
  · next hb =>
    constructor
    · intro h start stop hs
      by_cases hlt : start < stop
      · have := hs.inside
        have hl : data.length - 0 < bound := by
          apply h 0 (data.length - 0)
          rw [gap, if_pos (by omega)]
          apply List.mem_singleton_self
        omega
      · omega
    · intro h o l hmem
      obtain ⟨hlo, heq⟩ := mem_gap hmem
      cases heq
      apply h 0 data.length
      apply Stretch.mk .start (Nat.zero_le _) (le_refl _)
      intro pos _ _ hfit
      apply absurd hfit.1 hb

/-! ### The pieces make up the data -/

/-- The bytes of the pieces: what is passed on of the literals, and the windows that have been
replaced by a block. -/
def piecesBytes (data : List UInt8) (blength : ℕ) : List DeltaOp → Except Error (List UInt8)
  | [] => pure []
  | .literal offset len :: ops => do
    let bytes ← slice data offset (offset + len)
    let rest ← piecesBytes data blength ops
    pure (bytes ++ rest)
  | .blockMatch _ offset :: ops => do
    let rest ← piecesBytes data blength ops
    pure (window data blength offset ++ rest)

/-- The pieces follow each other from the start of the data to its end, and their bytes are
the data. -/
structure MakesUp (data : List UInt8) (blength : ℕ) (ops : List DeltaOp) : Prop where
  tiles : Tiles blength data.length 0 ops
  bytes : piecesBytes data blength ops = .ok data

theorem Tiles.le
    {blength len pos : ℕ} {ops : List DeltaOp} (h : Tiles blength len pos ops) :
  pos ≤ len
  := by
  induction ops generalizing pos with
  | nil => apply le_of_eq h
  | cons op ops ih =>
      cases op with
      | literal o l =>
          have := ih h.2
          omega
      | blockMatch idx o =>
          have := ih h.2
          omega

/-- Pieces that follow each other have the bytes of the data. -/
theorem piecesBytes_of_tiles
    {data : List UInt8} {blength pos : ℕ} {ops : List DeltaOp}
    (h : Tiles blength data.length pos ops) :
  piecesBytes data blength ops = .ok (data.drop pos)
  := by
  induction ops generalizing pos with
  | nil =>
      have hpos : pos = data.length := h
      rw [hpos, List.drop_length]
      rfl
  | cons op ops ih =>
      cases op with
      | literal o l =>
          obtain ⟨rfl, hrest⟩ := h
          have hle := hrest.le
          rw [piecesBytes, slice, if_neg (by omega), ih hrest, Nat.add_sub_cancel_left,
            ← List.drop_drop]
          apply congrArg Except.ok (List.take_append_drop l (data.drop o))
      | blockMatch idx o =>
          obtain ⟨rfl, hrest⟩ := h
          rw [piecesBytes, ih hrest, window, ← List.drop_drop]
          apply congrArg Except.ok (List.take_append_drop blength (data.drop o))

/-- Pieces whose lengths are kept in 32 bits start where the pieces start. -/
theorem Tiles.start_unique
    {blength len p q : ℕ} {ops : List DeltaOp} (h : Tiles blength len p ops)
    (hn : Tiles blength len q (ops.map DeltaOp.narrow)) :
  p = q
  := by
  cases ops with
  | nil => apply Eq.trans h (Eq.symm hn)
  | cons op ops =>
      cases op with
      | literal o l => apply Eq.trans h.1.symm hn.1
      | blockMatch idx o => apply Eq.trans h.1.symm hn.1

/-- Pieces still follow each other when their lengths are kept in 32 bits only if the lengths
of all literals fit. -/
theorem Tiles.lt_of_narrow
    {blength len pos : ℕ} {ops : List DeltaOp} (h : Tiles blength len pos ops)
    (hn : Tiles blength len pos (ops.map DeltaOp.narrow)) {o l : ℕ} (hmem : .literal o l ∈ ops) :
  l < 4294967296
  := by
  induction ops generalizing pos with
  | nil => cases hmem
  | cons op ops ih =>
      have hnext : ∃ next, Tiles blength len next ops ∧
          Tiles blength len next (ops.map DeltaOp.narrow) ∧
          (op = .literal o l → l < 4294967296) := by
        cases op with
        | literal o' l' =>
            have heq := h.2.start_unique hn.2
            refine ⟨pos + l', h.2, heq ▸ hn.2, ?_⟩
            intro h
            cases h
            have := Nat.mod_lt l (show 0 < 4294967296 by decide)
            omega
        | blockMatch idx o' => refine ⟨pos + blength, h.2, hn.2, fun h => by cases h⟩
      obtain ⟨next, hrest, hnrest, hhead⟩ := hnext
      rcases List.mem_cons.mp hmem with heq | hmem
      · apply hhead heq.symm
      · apply ih hrest hnrest hmem

/-- The pieces that the search finds make up the data exactly when no stretch in which a plain
scan finds no match is 4 GiB long. -/
theorem makesUp_iff
    (dig : Digests) (data : List UInt8) (head : SumHead) (sums : List SumBuf)
    (strongLen seed : ℕ) {ops : List DeltaOp}
    (hops : findMatchesSeeded dig data (BlockHashTable.build head sums) strongLen seed =
      .ok ops) :
  MakesUp data (asUsize head.blength) ops ↔
    ∀ start stop, Stretch (agreeingAt dig data sums (asUsize head.blength) strongLen seed)
      (asUsize head.blength) data.length start stop → stop - start < 4294967296
  := by
  rw [← literals_lt_iff _ _ _ _ _ _ _ (by decide)]
  have htiles := tiles_greedy dig data head sums strongLen seed
  rcases findMatchesSeeded_greedy dig data head sums strongLen seed with ⟨-, e, he⟩ | heq
  · rw [he] at hops
    cases hops
  · rw [heq] at hops
    cases hops
    constructor
    · intro h o l hmem
      apply htiles.lt_of_narrow h.tiles hmem
    · intro h
      rw [map_narrow h]
      apply MakesUp.mk htiles
      apply piecesBytes_of_tiles htiles

/-- A file that the receiver does not have yet. -/
theorem makesUp_iff_new :
  MakesUp [1, 2, 3] 0 [.literal 0 3] ↔
    ∀ start stop, Stretch (agreeingAt digestsOfZeros [1, 2, 3] [] 0 16 0) 0 3 start stop →
      stop - start < 4294967296
  := makesUp_iff digestsOfZeros [1, 2, 3] ⟨0, 0, 16, 0⟩ [] 16 0 rfl

/-- A new file of 4 GiB: its only literal is recorded without any bytes. -/
theorem not_makesUp :
  ∃ data : List UInt8, data = List.replicate 4294967296 0 ∧
    findMatchesSeeded digestsOfZeros data (BlockHashTable.build ⟨0, 0, 16, 0⟩ []) 16 0 =
      .ok [.literal 0 0] ∧
    ¬ MakesUp data 0 [.literal 0 0]
  := by
  obtain ⟨data, hdata⟩ : ∃ data : List UInt8, data = List.replicate 4294967296 0 := ⟨_, rfl⟩
  have hlen : data.length = 4294967296 := by rw [hdata, List.length_replicate]
  refine ⟨data, hdata, ?_, ?_⟩
  · unfold findMatchesSeeded
    simp only [BlockHashTable.build]
    rw [hlen]
    rfl
  · intro h
    have htiles := h.tiles
    rw [hlen] at htiles
    have hend : 0 + 0 = 4294967296 := htiles.2
    omega
