import RsyncRs.Delta.MatchBlocks

/-!
# The plain greedy scan

What the search for matching blocks stands for: a scan that takes both checksums of every
window anew and compares them with those of every block. The search finds the pieces of the
scan, but keeps the lengths of literals in 32 bits.
-/

/-! ### Greedy scans -/

/-- The bytes from `start` up to `stop`. -/
def gap (start stop : ℕ) : List DeltaOp :=
  if start < stop then [.literal start (stop - start)] else []

/-- The scan from `offset` on, when the data before `last` are covered. The window at an offset
is replaced by the block that `pick` has for it. -/
def greedyFrom (pick : ℕ → Option ℕ) (blength len : ℕ) (hb : 0 < blength) (offset last : ℕ) :
    List DeltaOp :=
  if offset + blength ≤ len then
    match pick offset with
    | some idx =>
      gap last offset ++
        .blockMatch idx offset ::
          greedyFrom pick blength len hb (offset + blength) (offset + blength)
    | none => greedyFrom pick blength len hb (offset + 1) last
  else
    gap last len
termination_by len - offset

/-- Each piece starts where the one before it ends, from `pos` up to `len`. -/
def Tiles (blength len : ℕ) : ℕ → List DeltaOp → Prop
  | pos, [] => pos = len
  | pos, .literal offset l :: ops => offset = pos ∧ Tiles blength len (pos + l) ops
  | pos, .blockMatch _ offset :: ops => offset = pos ∧ Tiles blength len (pos + blength) ops

theorem tiles_gap_append
    {blength len start stop : ℕ} (h : start ≤ stop) {ops : List DeltaOp}
    (hops : Tiles blength len stop ops) :
  Tiles blength len start (gap start stop ++ ops)
  := by
  unfold gap
  split
  · apply And.intro rfl
    rw [Nat.add_sub_cancel' h]
    apply hops
  · have he : start = stop := by omega
    rw [he]
    apply hops

theorem tiles_gap
    {blength len start : ℕ} (h : start ≤ len) :
  Tiles blength len start (gap start len)
  := by
  rw [← List.append_nil (gap start len)]
  apply tiles_gap_append h
  rfl

theorem mem_gap
    {start stop : ℕ} {op : DeltaOp} (h : op ∈ gap start stop) :
  start < stop ∧ op = .literal start (stop - start)
  := by
  unfold gap at h
  split at h
  · next hlt => apply And.intro hlt (List.mem_singleton.mp h)
  · cases h

section

variable {pick : ℕ → Option ℕ} {blength len : ℕ} (hb : 0 < blength)

include hb

/-- The pieces of the scan follow each other. -/
theorem tiles_greedyFrom
    {offset last : ℕ} (hlast : last ≤ offset) (hoff : last ≤ len) :
  Tiles blength len last (greedyFrom pick blength len hb offset last)
  := by
  fun_induction greedyFrom pick blength len hb offset last with
  | case1 offset last hfits idx hpick ih =>
      apply tiles_gap_append hlast
      apply And.intro rfl
      apply ih (le_refl _) hfits
  | case2 offset last hfits hpick ih => apply ih (by omega) hoff
  | case3 offset last hfits => apply tiles_gap hoff

/-- A window that starts in a literal of the scan has no block. -/
theorem pick_of_mem_greedyFrom
    {offset last : ℕ} (hlast : last ≤ offset)
    (hnone : ∀ pos, last ≤ pos → pos < offset → pos + blength ≤ len → pick pos = none)
    {o l : ℕ} (hmem : .literal o l ∈ greedyFrom pick blength len hb offset last)
    {pos : ℕ} (hpos : o ≤ pos) (hlt : pos < o + l) (hfit : pos + blength ≤ len) :
  pick pos = none
  := by
  fun_induction greedyFrom pick blength len hb offset last with
  | case1 offset last hfits idx hpick ih =>
      rcases List.mem_append.mp hmem with hgap | hrest
      · obtain ⟨hlo, heq⟩ := mem_gap hgap
        cases heq
        apply hnone pos hpos (by omega) hfit
      · rcases List.mem_cons.mp hrest with heq | hrest
        · cases heq
        · apply ih (le_refl _) (fun pos hp hq => by omega) hrest
  | case2 offset last hfits hpick ih =>
      apply ih (by omega) _ hmem
      intro p hp hq hfit
      rcases Nat.lt_succ_iff_lt_or_eq.mp hq with hq | rfl
      · apply hnone p hp hq hfit
      · apply hpick
  | case3 offset last hfits =>
      obtain ⟨hlo, heq⟩ := mem_gap hmem
      cases heq
      apply hnone pos hpos (by omega) hfit

/-- The literals of the scan lie inside the data. -/
theorem le_of_mem_greedyFrom
    {offset last : ℕ} (hlast : last ≤ offset) {o l : ℕ}
    (hmem : .literal o l ∈ greedyFrom pick blength len hb offset last) :
  o + l ≤ len
  := by
  fun_induction greedyFrom pick blength len hb offset last with
  | case1 offset last hfits idx hpick ih =>
      rcases List.mem_append.mp hmem with hgap | hrest
      · obtain ⟨hlo, heq⟩ := mem_gap hgap
        cases heq
        omega
      · rcases List.mem_cons.mp hrest with heq | hrest
        · cases heq
        · apply ih (le_refl _) hrest
  | case2 offset last hfits hpick ih => apply ih (by omega) hmem
  | case3 offset last hfits =>
      obtain ⟨hlo, heq⟩ := mem_gap hmem
      cases heq
      omega

end

/-! ### The block of a window -/

/-- The window is the full block by both checksums. -/
def SumsAgree (dig : Digests) (blength strongLen seed : ℕ) (win : List UInt8) (s : SumBuf) : Prop :=
  asUsize s.len = blength ∧ s.sum1 = checksum1 win ∧
    (dig.md5 (win ++ seedBytes seed)).take (min strongLen s.sum2.length) =
      s.sum2.take (min strongLen s.sum2.length)

instance
    (dig : Digests) (blength strongLen seed : ℕ) (win : List UInt8) (s : SumBuf) :
  Decidable (SumsAgree dig blength strongLen seed win s)
  := inferInstanceAs (Decidable (_ ∧ _ ∧ _))

/-- The full block of the lowest number that the window is by both checksums. -/
def agreeingBlock (dig : Digests) (sums : List SumBuf) (blength strongLen seed : ℕ)
    (win : List UInt8) : Option ℕ :=
  sums.findIdx? fun s => SumsAgree dig blength strongLen seed win s

/-- The full block of the lowest number that the window at `pos` is by both checksums. -/
def agreeingAt (dig : Digests) (data : List UInt8) (sums : List SumBuf)
    (blength strongLen seed pos : ℕ) : Option ℕ :=
  agreeingBlock dig sums blength strongLen seed (window data blength pos)

/-- The pieces of `data` by the plain scan. -/
def greedy (dig : Digests) (data : List UInt8) (head : SumHead) (sums : List SumBuf)
    (strongLen seed : ℕ) : List DeltaOp :=
  let blength := asUsize head.blength
  if hb : 0 < blength then
    greedyFrom (agreeingAt dig data sums blength strongLen seed) blength data.length hb 0 0
  else
    gap 0 data.length

/-! ### Candidates -/

/-- The blocks with the rolling checksum `key`, from the block `idx` on. -/
def entriesFrom (key : UInt32) : ℕ → List SumBuf → List (ℕ × List UInt8)
  | _, [] => []
  | idx, s :: sums =>
    if s.sum1 = key then
      (idx, s.sum2) :: entriesFrom key (idx + 1) sums
    else
      entriesFrom key (idx + 1) sums

/-- The table lists the blocks with a rolling checksum by their numbers. -/
theorem getD_fill
    (table : UInt32 → Option (List (ℕ × List UInt8))) (key : UInt32) (idx : ℕ)
    (sums : List SumBuf) :
  (BlockHashTable.fill table idx sums key).getD [] =
    (table key).getD [] ++ entriesFrom key idx sums
  := by
  induction sums generalizing table idx with
  | nil =>
      rw [entriesFrom, List.append_nil]
      rfl
  | cons s sums ih =>
      rw [BlockHashTable.fill, ih, entriesFrom, BlockHashTable.push]
      by_cases hkey : s.sum1 = key
      · rw [if_pos hkey.symm, if_pos hkey, hkey, Option.getD_some, List.append_assoc]
        rfl
      · rw [if_neg (Ne.symm hkey), if_neg hkey]

/-- Looking for the block of a window is going through the blocks with its rolling checksum. -/
theorem matchAt_eq
    (dig : Digests) (head : SumHead) (sums : List SumBuf) (blength strongLen seed : ℕ)
    (win : List UInt8) (sum : UInt32) :
  matchAt dig (BlockHashTable.build head sums) blength strongLen seed win sum =
    matchedIdx sums blength strongLen (windowStrong dig strongLen seed win)
      (entriesFrom sum 0 sums)
  := by
  have h : ((BlockHashTable.build head sums).findRolling sum).getD [] = entriesFrom sum 0 sums :=
    getD_fill _ sum 0 sums
  unfold matchAt
  rw [← h]
  cases (BlockHashTable.build head sums).findRolling sum with
  | none => rfl
  | some candidates => rfl

section

variable (dig : Digests) (blength strongLen seed : ℕ) (win : List UInt8)

/-- Comparing the strong checksums of a window and of a block. Beyond the end of the digest it
is a panic. -/
theorem matchedIdx_cons
    {sums : List SumBuf} {idx : ℕ} {s : SumBuf} (hs : sums[idx]? = some s)
    (hsum : s.sum1 = checksum1 win) (candidates : List (ℕ × List UInt8)) :
  (16 < strongLen ∧ ∃ e, matchedIdx sums blength strongLen (windowStrong dig strongLen seed win)
    ((idx, s.sum2) :: candidates) = .error e) ∨
  matchedIdx sums blength strongLen (windowStrong dig strongLen seed win)
      ((idx, s.sum2) :: candidates) =
    if SumsAgree dig blength strongLen seed win s then
      .ok (some idx)
    else
      matchedIdx sums blength strongLen (windowStrong dig strongLen seed win) candidates
  := by
  rw [matchedIdx.eq_def]
  simp only [hs]
  by_cases hlen : asUsize s.len = blength
  · rw [if_neg (not_not.mpr hlen)]
    unfold windowStrong
    by_cases hstrong : 0 < strongLen
    · rw [if_pos hstrong]
      dsimp only
      rw [dig.length_md5, List.length_take, dig.length_md5]
      by_cases hover : min strongLen 16 < min strongLen s.sum2.length
      · rw [if_pos (by omega)]
        apply Or.inl ⟨by omega, _, rfl⟩
      · rw [if_neg (by omega), List.take_take]
        have hmin : min (min strongLen s.sum2.length) (min strongLen 16) =
            min strongLen s.sum2.length := by omega
        rw [hmin]
        apply Or.inr
        congr 1
        rw [SumsAgree, eq_iff_iff]
        constructor
        · intro heq
          apply And.intro hlen ⟨hsum, heq⟩
        · intro h
          apply h.2.2
    · rw [if_neg hstrong]
      have hzero : strongLen = 0 := by omega
      apply Or.inr
      dsimp only
      rw [if_pos]
      · rfl
      · subst hzero
        apply And.intro hlen ⟨hsum, by simp⟩
  · rw [if_pos hlen]
    apply Or.inr
    rw [if_neg]
    intro h
    apply hlen h.1

/-- Going through the blocks with the rolling checksum of the window finds the full block of
the lowest number that the window is by both checksums. -/
theorem matchedIdx_entriesFrom
    (done rest : List SumBuf) :
  (16 < strongLen ∧ ∃ e, matchedIdx (done ++ rest) blength strongLen
    (windowStrong dig strongLen seed win) (entriesFrom (checksum1 win) done.length rest) =
      .error e) ∨
  matchedIdx (done ++ rest) blength strongLen (windowStrong dig strongLen seed win)
      (entriesFrom (checksum1 win) done.length rest) =
    .ok ((agreeingBlock dig rest blength strongLen seed win).map (done.length + ·))
  := by
  induction rest generalizing done with
  | nil => apply Or.inr rfl
  | cons s rest ih =>
      have ih' := ih (done ++ [s])
      have hlen : (done ++ [s]).length = done.length + 1 := by simp
      rw [← List.append_cons, hlen] at ih'
      have hmap : ∀ found : Option ℕ, (found.map (· + 1)).map (done.length + ·) =
          found.map (done.length + 1 + ·) := by
        intro found
        rw [Option.map_map]
        congr 1
        funext i
        apply (by omega : done.length + (i + 1) = done.length + 1 + i)
      rw [entriesFrom, agreeingBlock, List.findIdx?_cons]
      by_cases hsum : s.sum1 = checksum1 win
      · rw [if_pos hsum]
        rcases matchedIdx_cons dig blength strongLen seed win
          (show (done ++ s :: rest)[done.length]? = some s by simp) hsum
          (entriesFrom (checksum1 win) (done.length + 1) rest) with herr | heq
        · apply Or.inl herr
        · rw [heq]
          by_cases hagrees : SumsAgree dig blength strongLen seed win s
          · rw [if_pos hagrees, if_pos (decide_eq_true hagrees)]
            apply Or.inr rfl
          · rw [if_neg hagrees, if_neg (by simpa using hagrees), hmap]
            apply ih'
      · have hagrees : ¬ SumsAgree dig blength strongLen seed win s := fun h => hsum h.2.1
        rw [if_neg hsum, if_neg (by simpa using hagrees), hmap]
        apply ih'

/-- The block of a window is the full block of the lowest number that the window is by both
checksums. -/
theorem matchAt_agreeingBlock
    (head : SumHead) (sums : List SumBuf) :
  (16 < strongLen ∧ ∃ e, matchAt dig (BlockHashTable.build head sums) blength strongLen seed win
    (checksum1 win) = .error e) ∨
  matchAt dig (BlockHashTable.build head sums) blength strongLen seed win (checksum1 win) =
    .ok (agreeingBlock dig sums blength strongLen seed win)
  := by
  rw [matchAt_eq]
  have h := matchedIdx_entriesFrom dig blength strongLen seed win [] sums
  simpa using h

end

/-! ### The search finds the pieces of the scan -/

/-- The piece with its length kept in 32 bits. -/
def DeltaOp.narrow : DeltaOp → DeltaOp
  | .literal offset l => .literal offset (l % 4294967296)
  | .blockMatch blockIdx offset => .blockMatch blockIdx offset

theorem literalUpTo_eq
    (start stop : ℕ) :
  literalUpTo start stop = (gap start stop).map DeltaOp.narrow
  := by
  unfold literalUpTo gap
  split <;> rfl

/-- The search with the window at an offset finds the pieces of the scan from there on. -/
theorem findMatchesFrom_greedy
    (dig : Digests) {data : List UInt8} (head : SumHead) (sums : List SumBuf)
    (strongLen seed : ℕ) {blength : ℕ} (hb : 0 < blength) {rc : RollingChecksum}
    {offset last : ℕ} (hoff : offset + blength ≤ data.length)
    (hrc : rc.Tracks (window data blength offset)) :
  (16 < strongLen ∧ ∃ e, findMatchesFrom dig data (BlockHashTable.build head sums) strongLen seed
    blength hb rc offset last = .error e) ∨
  findMatchesFrom dig data (BlockHashTable.build head sums) strongLen seed blength hb rc offset
      last =
    .ok ((greedyFrom (agreeingAt dig data sums blength strongLen seed) blength data.length hb
      offset last).map DeltaOp.narrow)
  := by
  induction hn : data.length - offset using Nat.strong_induction_on
      generalizing rc offset last with
  | h n ih =>
      rw [findMatchesFrom, hrc.value_eq, greedyFrom, if_pos hoff]
      rcases matchAt_agreeingBlock dig blength strongLen seed (window data blength offset) head
        sums with ⟨hstrong, e, he⟩ | hfound
      · rw [he]
        apply Or.inl ⟨hstrong, e, rfl⟩
      · rw [hfound, agreeingAt]
        cases agreeingBlock dig sums blength strongLen seed (window data blength offset) with
        | some idx =>
            simp only [ok_bind, List.map_append, List.map_cons, ← literalUpTo_eq]
            by_cases hnext : offset + blength + blength ≤ data.length
            · rw [if_pos hnext]
              have htracks := RollingChecksum.tracks_init (window data blength (offset + blength))
              rcases @ih _ (by omega) _ _ (offset + blength) hnext htracks rfl with
                ⟨hstrong, e, he⟩ | hrest
              · rw [he]
                apply Or.inl ⟨hstrong, e, rfl⟩
              · simp only [hrest, ok_bind, List.append_assoc]
                apply Or.inr rfl
            · rw [if_neg hnext, greedyFrom, if_neg hnext, ← literalUpTo_eq, List.append_assoc]
              apply Or.inr rfl
        | none =>
            simp only [ok_bind]
            by_cases hend : data.length - blength ≤ offset
            · rw [if_pos hend, greedyFrom, if_neg (by omega), literalUpTo_eq]
              apply Or.inr rfl
            · rw [if_neg hend]
              have hlt : offset + blength < data.length := by omega
              obtain ⟨mid, hmid, hnew⟩ := window_slide hb hlt
              rw [hmid] at hrc
              have hrc' := hrc.roll (data.getD (offset + blength) 0)
              rw [← hnew] at hrc'
              apply ih _ (by omega) (by omega) hrc' rfl

/-- The search finds the pieces of the scan, with lengths in 32 bits. It can fail only where
strong checksums longer than a digest are asked for. -/
theorem findMatchesSeeded_greedy
    (dig : Digests) (data : List UInt8) (head : SumHead) (sums : List SumBuf)
    (strongLen seed : ℕ) :
  (16 < strongLen ∧ ∃ e,
    findMatchesSeeded dig data (BlockHashTable.build head sums) strongLen seed = .error e) ∨
  findMatchesSeeded dig data (BlockHashTable.build head sums) strongLen seed =
    .ok ((greedy dig data head sums strongLen seed).map DeltaOp.narrow)
  := by
  unfold findMatchesSeeded greedy
  have hhead : (BlockHashTable.build head sums).head = head := rfl
  rw [hhead]
  by_cases hb : 0 < asUsize head.blength
  · simp only [dif_pos hb]
    by_cases hlen : data.length < asUsize head.blength
    · rw [if_pos hlen, greedyFrom, if_neg (by omega), literalUpTo_eq]
      apply Or.inr rfl
    · rw [if_neg hlen]
      apply findMatchesFrom_greedy dig head sums strongLen seed hb (by omega)
      apply RollingChecksum.tracks_init
  · simp only [dif_neg hb]
    rw [literalUpTo_eq]
    apply Or.inr rfl

/-- The pieces of the scan follow each other from the start of the data to its end. -/
theorem tiles_greedy
    (dig : Digests) (data : List UInt8) (head : SumHead) (sums : List SumBuf)
    (strongLen seed : ℕ) :
  Tiles (asUsize head.blength) data.length 0 (greedy dig data head sums strongLen seed)
  := by
  unfold greedy
  dsimp only
  split
  · next hb => apply tiles_greedyFrom hb (le_refl 0) (Nat.zero_le _)
  · apply tiles_gap (Nat.zero_le _)

/-- The literals of the scan lie inside the data. -/
theorem le_of_mem_greedy
    {dig : Digests} {data : List UInt8} {head : SumHead} {sums : List SumBuf}
    {strongLen seed o l : ℕ} (hmem : .literal o l ∈ greedy dig data head sums strongLen seed) :
  o + l ≤ data.length
  := by
  unfold greedy at hmem
  dsimp only at hmem
  split at hmem
  · next hb => apply le_of_mem_greedyFrom hb (le_refl 0) hmem
  · obtain ⟨hlo, heq⟩ := mem_gap hmem
    cases heq
    omega

/-- Lengths that fit into 32 bits are kept as they are. -/
theorem map_narrow
    {ops : List DeltaOp} (h : ∀ o l, .literal o l ∈ ops → l < 4294967296) :
  ops.map DeltaOp.narrow = ops
  := by
  have heq : ∀ op ∈ ops, DeltaOp.narrow op = id op := by
    intro op hop
    cases op with
    | literal o l => rw [DeltaOp.narrow, Nat.mod_eq_of_lt (h o l hop), id_eq]
    | blockMatch idx o => rfl
  rw [List.map_congr_left heq, List.map_id]

/-- On data shorter than 4 GiB the search finds just the pieces of the scan, and no literal
hides a window that agrees with a full block. -/
theorem findMatchesSeeded_eq_greedy
    (dig : Digests) {data : List UInt8} (hdata : data.length < 4294967296) {head : SumHead}
    (hb : 0 < asUsize head.blength) (sums : List SumBuf) {strongLen : ℕ}
    (hstrong : strongLen ≤ 16) (seed : ℕ) :
  findMatchesSeeded dig data (BlockHashTable.build head sums) strongLen seed =
    .ok (greedy dig data head sums strongLen seed) ∧
  ∀ o l, .literal o l ∈ greedy dig data head sums strongLen seed →
    ∀ pos, o ≤ pos → pos < o + l → pos + asUsize head.blength ≤ data.length →
      agreeingAt dig data sums (asUsize head.blength) strongLen seed pos = none
  := by
  constructor
  · rcases findMatchesSeeded_greedy dig data head sums strongLen seed with ⟨hlong, -⟩ | heq
    · omega
    · rw [heq, map_narrow]
      intro o l hmem
      have := le_of_mem_greedy hmem
      omega
  · intro o l hmem pos hpos hlt hfit
    unfold greedy at hmem
    simp only [dif_pos hb] at hmem
    apply pick_of_mem_greedyFrom hb (le_refl 0) (fun p hp hq => by omega) hmem hpos hlt hfit

/-- A block of zeros that the receiver has. -/
theorem findMatchesSeeded_eq_greedy_zeros :
  findMatchesSeeded digestsOfZeros (List.replicate 700 0)
      (BlockHashTable.build ⟨1, 700, 16, 0⟩
        [⟨0, 700, 0, digestsOfZeros.md5 (List.replicate 700 0)⟩]) 16 0 =
    .ok (greedy digestsOfZeros (List.replicate 700 0) ⟨1, 700, 16, 0⟩
      [⟨0, 700, 0, digestsOfZeros.md5 (List.replicate 700 0)⟩] 16 0) ∧
  ∀ o l, .literal o l ∈ greedy digestsOfZeros (List.replicate 700 0) ⟨1, 700, 16, 0⟩
      [⟨0, 700, 0, digestsOfZeros.md5 (List.replicate 700 0)⟩] 16 0 →
    ∀ pos, o ≤ pos → pos < o + l → pos + 700 ≤ (List.replicate 700 (0 : UInt8)).length →
      agreeingAt digestsOfZeros (List.replicate 700 0)
        [⟨0, 700, 0, digestsOfZeros.md5 (List.replicate 700 0)⟩] 700 16 0 pos = none
  := findMatchesSeeded_eq_greedy digestsOfZeros (by rw [List.length_replicate]; decide)
    (by decide) [⟨0, 700, 0, digestsOfZeros.md5 (List.replicate 700 0)⟩] (le_refl 16) 0
