import RsyncRs.Delta.MatchBlocks

/-!
# Strong checksums that are too long

A digest has sixteen bytes, and the head of a request may ask for strong checksums that are
longer. The search then panics at the first window that has the rolling checksum of a full
block; when there is no such window, it finds no block.
-/

/-! ### Candidates -/

namespace BlockHashTable

/-- The block `idx` of those in `sums` is among the entries with its rolling checksum. -/
def Holds (table : UInt32 → Option (List (ℕ × List UInt8))) (sums : List SumBuf) (idx : ℕ) :
    Prop :=
  ∀ s, sums[idx]? = some s → ∃ entries, table s.sum1 = some entries ∧ (idx, s.sum2) ∈ entries

theorem push_self
    (table : UInt32 → Option (List (ℕ × List UInt8))) (key : UInt32) (entry : ℕ × List UInt8) :
  ∃ entries, push table key entry key = some entries ∧ entry ∈ entries
  := by
  use (table key).getD [] ++ [entry], if_pos rfl
  apply List.mem_append_right
  apply List.mem_singleton_self

/-- What was in the table stays there. -/
theorem mem_push
    {table : UInt32 → Option (List (ℕ × List UInt8))} {key : UInt32}
    {entries : List (ℕ × List UInt8)} (h : table key = some entries) (key' : UInt32)
    (entry : ℕ × List UInt8) :
  ∃ entries', push table key' entry key = some entries' ∧ ∀ e ∈ entries, e ∈ entries'
  := by
  by_cases hkey : key = key'
  · subst hkey
    use (table key).getD [] ++ [entry], if_pos rfl
    intro e he
    apply List.mem_append_left
    rw [h]
    apply he
  · use entries, (if_neg hkey).trans h
    intro e he
    apply he

theorem holds_fill
    {done rest : List SumBuf} {table : UInt32 → Option (List (ℕ × List UInt8))}
    (h : ∀ idx < done.length, Holds table (done ++ rest) idx) (idx : ℕ) :
  Holds (fill table done.length rest) (done ++ rest) idx
  := by
  induction rest generalizing done table with
  | nil =>
      intro s hs
      apply h idx _ s hs
      obtain ⟨hidx, -⟩ := List.getElem?_eq_some_iff.mp hs
      simpa using hidx
  | cons s rest ih =>
      have hlen : (done ++ [s]).length = done.length + 1 := by simp
      rw [List.append_cons] at h ⊢
      rw [fill, ← hlen]
      apply ih
      intro j hj t ht
      rcases Nat.lt_succ_iff_lt_or_eq.mp (hlen ▸ hj) with hlt | rfl
      · obtain ⟨entries, hentries, hmem⟩ := h j hlt t ht
        obtain ⟨entries', hentries', hsub⟩ := mem_push hentries s.sum1 (done.length, s.sum2)
        use entries', hentries', hsub _ hmem
      · have hst : s = t := by simpa using ht
        subst hst
        apply push_self

/-- The table of some blocks has each of them. -/
theorem holds_build
    (head : SumHead) (sums : List SumBuf) (idx : ℕ) :
  Holds (build head sums).table sums idx
  := by
  have h : ∀ j < ([] : List SumBuf).length, Holds (fun _ => none) ([] ++ sums) j := by
    intro j hj
    cases hj
  apply holds_fill h

end BlockHashTable

/-! ### Windows with the rolling checksum of a block -/

/-- A full block has the rolling checksum `sum`. -/
def RollingHit (sums : List SumBuf) (blength : ℕ) (sum : UInt32) : Prop :=
  ∃ s ∈ sums, asUsize s.len = blength ∧ s.sum1 = sum

/-- The panic of a comparison beyond the end of a digest. -/
def overlongPanic : Error :=
  .panic "range end index out of range for slice"

section

variable (dig : Digests) {sums : List SumBuf} {blength strongLen : ℕ} (seed : ℕ)
  (hlong : 16 < strongLen) (hlen : ∀ s ∈ sums, s.sum2.length = strongLen)

include hlong hlen

/-- Among candidates that are all too long, those that are no full blocks are passed by. -/
theorem matchedIdx_overlong
    (win : List UInt8) {candidates : List (ℕ × List UInt8)}
    (hc : ∀ e ∈ candidates, ∃ s, sums[e.1]? = some s ∧ s.sum2 = e.2) :
  ((∃ e ∈ candidates, ∃ s, sums[e.1]? = some s ∧ asUsize s.len = blength) →
    matchedIdx sums blength strongLen (windowStrong dig strongLen seed win) candidates =
      .error overlongPanic) ∧
  ((∀ e ∈ candidates, ∀ s, sums[e.1]? = some s → asUsize s.len ≠ blength) →
    matchedIdx sums blength strongLen (windowStrong dig strongLen seed win) candidates =
      .ok none)
  := by
  induction candidates with
  | nil =>
      constructor
      · rintro ⟨e, he, -⟩
        cases he
      · intro _
        rfl
  | cons e candidates ih =>
      obtain ⟨idx, stored⟩ := e
      obtain ⟨s, hs, rfl⟩ := hc _ List.mem_cons_self
      obtain ⟨ihit, imiss⟩ := ih fun e he => hc e (List.mem_cons_of_mem _ he)
      have hsum := hlen s (List.mem_of_getElem? hs)
      unfold matchedIdx
      simp only [hs]
      by_cases hfull : asUsize s.len = blength
      · rw [if_neg (not_not.mpr hfull)]
        constructor
        · intro _
          unfold windowStrong
          rw [if_pos (by omega)]
          dsimp only
          rw [if_pos (by rw [List.length_take, dig.length_md5]; omega)]
          rfl
        · intro hmiss
          cases hmiss _ List.mem_cons_self s hs hfull
      · rw [if_pos hfull]
        constructor
        · rintro ⟨e, he, t, ht, hft⟩
          rcases List.mem_cons.mp he with rfl | he
          · rw [hs] at ht
            cases ht
            cases hfull hft
          · apply ihit ⟨e, he, t, ht, hft⟩
        · intro hmiss
          apply imiss fun e he => hmiss e (List.mem_cons_of_mem _ he)

/-- A window with the rolling checksum of a full block makes the search panic. -/
theorem matchAt_of_hit
    (head : SumHead) (win : List UInt8) {sum : UInt32} (h : RollingHit sums blength sum) :
  matchAt dig (BlockHashTable.build head sums) blength strongLen seed win sum =
    .error overlongPanic
  := by
  obtain ⟨s, hs, hfull, rfl⟩ := h
  obtain ⟨idx, hidx⟩ := List.mem_iff_getElem?.mp hs
  obtain ⟨entries, hentries, hmem⟩ := BlockHashTable.holds_build head sums idx s hidx
  unfold matchAt BlockHashTable.findRolling
  rw [hentries]
  apply (matchedIdx_overlong dig seed hlong hlen win _).1
  · exact ⟨_, hmem, s, hidx, hfull⟩
  · intro e he
    obtain ⟨t, ht, -, hsum⟩ := BlockHashTable.sound_build head sums _ _ hentries e he
    use t, ht

/-- Any other window is passed by. -/
theorem matchAt_of_miss
    (head : SumHead) (win : List UInt8) {sum : UInt32} (h : ¬ RollingHit sums blength sum) :
  matchAt dig (BlockHashTable.build head sums) blength strongLen seed win sum = .ok none
  := by
  unfold matchAt
  split
  · rfl
  · next candidates hc =>
    have hsound := BlockHashTable.sound_build head sums _ _ hc
    apply (matchedIdx_overlong dig seed hlong hlen win _).2
    · intro e he s hs hfull
      obtain ⟨t, ht, hsum, -⟩ := hsound e he
      rw [hs] at ht
      cases ht
      apply h ⟨s, List.mem_of_getElem? hs, hfull, hsum⟩
    · intro e he
      obtain ⟨t, ht, -, hsum⟩ := hsound e he
      use t, ht

/-- The search panics at the first window with the rolling checksum of a full block, and it
finds nothing when there is none. -/
theorem findMatchesFrom_overlong
    {data : List UInt8} (head : SumHead) (hb : 0 < blength) {rc : RollingChecksum}
    {offset lastMatch : ℕ} (hoff : offset + blength ≤ data.length)
    (hrc : rc.Tracks (window data blength offset)) :
  ((∃ pos, offset ≤ pos ∧ pos + blength ≤ data.length ∧
      RollingHit sums blength (checksum1 (window data blength pos))) →
    findMatchesFrom dig data (BlockHashTable.build head sums) strongLen seed blength hb rc
      offset lastMatch = .error overlongPanic) ∧
  ((∀ pos, offset ≤ pos → pos + blength ≤ data.length →
      ¬ RollingHit sums blength (checksum1 (window data blength pos))) →
    findMatchesFrom dig data (BlockHashTable.build head sums) strongLen seed blength hb rc
      offset lastMatch = .ok (literalUpTo lastMatch data.length))
  := by
  induction hn : data.length - offset using Nat.strong_induction_on generalizing rc offset with
  | h n ih =>
      rw [findMatchesFrom, hrc.value_eq]
      by_cases hhit : RollingHit sums blength (checksum1 (window data blength offset))
      · rw [matchAt_of_hit dig seed hlong hlen head _ hhit]
        constructor
        · intro _
          rfl
        · intro hmiss
          cases hmiss offset (le_refl offset) hoff hhit
      rw [matchAt_of_miss dig seed hlong hlen head _ hhit, ok_bind]
      dsimp only
      split
      · -- the last window
        have hlast : ∀ pos, offset ≤ pos → pos + blength ≤ data.length → pos = offset := by
          intro pos h₁ h₂
          omega
        constructor
        · rintro ⟨pos, h₁, h₂, hpos⟩
          rw [hlast pos h₁ h₂] at hpos
          cases hhit hpos
        · intro _
          rfl
      · obtain ⟨mid, hmid, hnew⟩ := window_slide hb (show offset + blength < data.length by omega)
        rw [hmid] at hrc
        have hrc' := hrc.roll (data.getD (offset + blength) 0)
        rw [← hnew] at hrc'
        obtain ⟨ihit, imiss⟩ := ih _ (by omega) (by omega) hrc' rfl
        constructor
        · rintro ⟨pos, h₁, h₂, hpos⟩
          apply ihit ⟨pos, _, h₂, hpos⟩
          rcases Nat.lt_or_eq_of_le h₁ with hlt | rfl
          · apply hlt
          · cases hhit hpos
        · intro hmiss
          apply imiss
          intro pos h₁
          apply hmiss pos (by omega)

end

/-! ### Requests that the search can answer -/

/-- The search can answer a request with the given head and blocks: its strong checksums are
no longer than a digest, or no window of the data has the rolling checksum of a full block. -/
def SearchFits (head : SumHead) (sums : List SumBuf) (data : List UInt8) : Prop :=
  asUsize head.s2length ≤ 16 ∨ ∀ pos, 0 < asUsize head.blength →
    pos + asUsize head.blength ≤ data.length →
    ¬ RollingHit sums (asUsize head.blength) (checksum1 (window data (asUsize head.blength) pos))

/-- A request that the search can answer is answered with pieces that cover the data. -/
theorem findMatchesSeeded_of_fits
    (dig : Digests) {data : List UInt8} {head : SumHead} {sums : List SumBuf}
    (hlen : ∀ s ∈ sums, s.sum2.length = asUsize head.s2length) (seed : ℕ)
    (hfits : SearchFits head sums data) :
  ∃ ops, findMatchesSeeded dig data (BlockHashTable.build head sums) (asUsize head.s2length) seed =
      .ok ops ∧
    Covers (fun idx _ => idx < sums.length) (asUsize head.blength) data.length 0 ops
  := by
  by_cases hshort : asUsize head.s2length ≤ 16
  · have hsums : ∀ s ∈ sums, s.sum2.length ≤ 16 := by
      intro s hs
      rw [hlen s hs]
      apply hshort
    obtain ⟨ops, hops, hcov⟩ :=
      findMatchesSeeded_spec dig data head hsums (asUsize head.s2length) seed
    use ops, hops
    apply hcov.mono
    rintro idx pos - ⟨s, hs⟩
    apply (List.getElem?_eq_some_iff.mp hs.get).1
  · have hmiss := hfits.resolve_left hshort
    use literalUpTo 0 data.length
    refine ⟨?_, covers_literal_end (Nat.zero_le _)⟩
    unfold findMatchesSeeded
    have hhead : (BlockHashTable.build head sums).head = head := rfl
    rw [hhead]
    by_cases hb : 0 < asUsize head.blength
    · simp only [dif_pos hb]
      by_cases hdata : data.length < asUsize head.blength
      · rw [if_pos hdata]
        rfl
      · rw [if_neg hdata]
        apply (findMatchesFrom_overlong dig seed (not_le.mp hshort) hlen head hb _ _).2
        · intro pos _
          apply hmiss pos hb
        · omega
        · apply RollingChecksum.tracks_init
    · simp only [dif_neg hb]
      rfl

/-- Any other request makes the search panic. -/
theorem findMatchesSeeded_of_not_fits
    (dig : Digests) {data : List UInt8} {head : SumHead} {sums : List SumBuf}
    (hlen : ∀ s ∈ sums, s.sum2.length = asUsize head.s2length) (seed : ℕ)
    (hfits : ¬ SearchFits head sums data) :
  findMatchesSeeded dig data (BlockHashTable.build head sums) (asUsize head.s2length) seed =
    .error overlongPanic
  := by
  unfold SearchFits at hfits
  push Not at hfits
  obtain ⟨hlong, pos, hb, hpos, hhit⟩ := hfits
  unfold findMatchesSeeded
  have hhead : (BlockHashTable.build head sums).head = head := rfl
  rw [hhead]
  simp only [dif_pos hb]
  rw [if_neg (by omega)]
  apply (findMatchesFrom_overlong dig seed hlong hlen head hb _ _).1
  · use pos, Nat.zero_le pos, hpos
  · omega
  · apply RollingChecksum.tracks_init
