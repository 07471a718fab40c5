import RsyncRs.Delta.Greedy

/-!
# Files that have not changed

The receiver sums its blocks with the checksum type of the protocol, and the sender always
compares MD5 digests. When both have the same file, the sender should find every full block
and send no more than the bytes behind the last one as they are. It does so in the protocols
whose checksum type is MD5, and otherwise only where the digests agree by chance.
-/

/-! ### Scans that find a block in every place -/

section

variable {pick : ℕ → Option ℕ} {blength len : ℕ} (hb : 0 < blength)

include hb

/-- Where the scan has a block, the window has it. -/
theorem pick_of_mem_blockMatch
    {offset last idx pos : ℕ}
    (hmem : .blockMatch idx pos ∈ greedyFrom pick blength len hb offset last) :
  pick pos = some idx
  := by
  fun_induction greedyFrom pick blength len hb offset last with
  | case1 offset last hfits idx' hpick ih =>
      rcases List.mem_append.mp hmem with hgap | hrest
      · cases (mem_gap hgap).2
      · rcases List.mem_cons.mp hrest with heq | hrest
        · cases heq
          apply hpick
        · apply ih hrest
  | case2 offset last hfits hpick ih => apply ih hmem
  | case3 offset last hfits => cases (mem_gap hmem).2

/-- When all places from the place `n` on have a block, the scan from there on consists of these
blocks and of the bytes behind the last place. -/
theorem greedyFrom_places
    {n : ℕ} (hn : n ≤ len / blength)
    (hpick : ∀ k, n ≤ k → k < len / blength → pick (k * blength) ≠ none) :
  (∀ k, n ≤ k → k < len / blength →
    ∃ idx, .blockMatch idx (k * blength) ∈
      greedyFrom pick blength len hb (n * blength) (n * blength)) ∧
  ∀ o l, .literal o l ∈ greedyFrom pick blength len hb (n * blength) (n * blength) →
    o = len / blength * blength ∧ l = len % blength
  := by
  have hdiv := Nat.div_add_mod' len blength
  have hmod := Nat.mod_lt len hb
  induction hm : len / blength - n generalizing n with
  | zero =>
      have hlast : n = len / blength := by omega
      subst hlast
      rw [greedyFrom, if_neg (by omega)]
      constructor
      · intro k hle hlt
        omega
      · intro o l hmem
        obtain ⟨hlt, heq⟩ := mem_gap hmem
        cases heq
        omega
  | succ m ih =>
      have hlt : n < len / blength := by omega
      have hle : (n + 1) * blength ≤ len / blength * blength := Nat.mul_le_mul_right blength hlt
      have hnext : n * blength + blength = (n + 1) * blength := by rw [add_mul, one_mul]
      obtain ⟨hblocks, hlits⟩ := ih hlt (fun k hk => hpick k (by omega)) (by omega)
      obtain ⟨idx, hidx⟩ := Option.ne_none_iff_exists'.mp (hpick n (le_refl n) hlt)
      have hstep : greedyFrom pick blength len hb (n * blength) (n * blength) =
          .blockMatch idx (n * blength) ::
            greedyFrom pick blength len hb ((n + 1) * blength) ((n + 1) * blength) := by
        rw [greedyFrom, if_pos (by omega), hidx, hnext, gap, if_neg (lt_irrefl _)]
        rfl
      rw [hstep]
      constructor
      · intro k hk hk'
        obtain rfl | hk := Nat.eq_or_lt_of_le hk
        · use idx
          apply List.mem_cons_self
        · obtain ⟨idx', hmem⟩ := hblocks k hk hk'
          use idx'
          apply List.mem_cons_of_mem _ hmem
      · intro o l hmem
        rcases List.mem_cons.mp hmem with heq | hmem
        · cases heq
        · apply hlits o l hmem

end

/-- Every full block of the data is replaced by a reference, and the only literal bytes are those
behind the last full block. -/
structure TailOnly (data : List UInt8) (blength : ℕ) (ops : List DeltaOp) : Prop where
  blocks : ∀ k < data.length / blength, ∃ idx, .blockMatch idx (k * blength) ∈ ops
  literals : ∀ o l, .literal o l ∈ ops →
    o = data.length / blength * blength ∧ l = data.length % blength

theorem mem_map_narrow_blockMatch
    {ops : List DeltaOp} {idx o : ℕ} :
  .blockMatch idx o ∈ ops.map DeltaOp.narrow ↔ .blockMatch idx o ∈ ops
  := by
  rw [List.mem_map]
  constructor
  · rintro ⟨op, hop, heq⟩
    cases op with
    | literal o' l' => cases heq
    | blockMatch idx' o' =>
        cases heq
        apply hop
  · intro h
    use .blockMatch idx o, h
    rfl

/-- The pieces are the blocks of all places and the bytes behind them exactly when the window at
every place has a block. -/
theorem tailOnly_iff
    (dig : Digests) (data : List UInt8) {head : SumHead} (hb : 0 < asUsize head.blength)
    (hsmall : asUsize head.blength < 4294967296) (sums : List SumBuf) (strongLen seed : ℕ) :
  TailOnly data (asUsize head.blength)
      ((greedy dig data head sums strongLen seed).map DeltaOp.narrow) ↔
    ∀ k < data.length / asUsize head.blength,
      agreeingAt dig data sums (asUsize head.blength) strongLen seed
        (k * asUsize head.blength) ≠ none
  := by
  have hgreedy : greedy dig data head sums strongLen seed =
      greedyFrom (agreeingAt dig data sums (asUsize head.blength) strongLen seed)
        (asUsize head.blength) data.length hb 0 0 := by
    unfold greedy
    simp only [dif_pos hb]
  rw [hgreedy]
  generalize asUsize head.blength = b at *
  constructor
  · intro h k hk hnone
    obtain ⟨idx, hmem⟩ := h.blocks k hk
    rw [mem_map_narrow_blockMatch] at hmem
    have hsome := pick_of_mem_blockMatch hb hmem
    rw [hnone] at hsome
    cases hsome
  · intro h
    obtain ⟨hblocks, hlits⟩ :=
      greedyFrom_places hb (Nat.zero_le _) fun k _ hk => h k hk
    rw [zero_mul] at hblocks hlits
    constructor
    · intro k hk
      obtain ⟨idx, hmem⟩ := hblocks k (Nat.zero_le k) hk
      use idx
      apply mem_map_narrow_blockMatch.mpr hmem
    · intro o l hmem
      obtain ⟨op, hop, heq⟩ := List.mem_map.mp hmem
      cases op with
      | literal o' l' =>
          obtain ⟨ho, hl⟩ := hlits o' l' hop
          have hmod := Nat.mod_lt data.length hb
          cases heq
          rw [Nat.mod_eq_of_lt (by omega)]
          apply And.intro ho hl
      | blockMatch idx o' => cases heq

/-! ### Blocks that the sender recognises -/

/-- The checksum type that both ends choose for a protocol. -/
def protocolCsumType (protocol : ℕ) : CsumType :=
  strongToCsumType (ChecksumType.forProtocol protocol)

theorem csumType_protocolCsumType
    (protocol : ℕ) :
  csumTypeToChecksumType (protocolCsumType protocol) = ChecksumType.forProtocol protocol
  := by
  unfold protocolCsumType ChecksumType.forProtocol
  split_ifs <;> rfl

theorem asUsize_protocolCsumType
    (protocol : ℕ) :
  asUsize (csumSumLen (protocolCsumType protocol)) = 16
  := by
  rw [(asUsize_csumSumLen _).1]
  apply digestLen_forProtocol

/-- The digest of a protocol has sixteen bytes. -/
theorem length_compute_forProtocol
    (dig : Digests) (data : List UInt8) (protocol seed : ℕ) (proper : Bool) :
  (dig.compute data (ChecksumType.forProtocol protocol) seed proper).length = 16
  := by
  unfold ChecksumType.forProtocol
  split_ifs <;> simp [Digests.compute, dig.length_md5, dig.length_md4, length_md4Classic]

/-- The head that the receiver makes for a file of its own. -/
def basisHead (protocol : ℕ) (data : List UInt8) : SumHead :=
  makeSumHead data.length (csumSumLen (protocolCsumType protocol))

/-- The number of blocks of the file fits into 32 bits. -/
def FewBlocks (data : List UInt8) : Prop :=
  (data.length + blockLenForFile data.length - 1) / blockLenForFile data.length < 2147483648

/-- The block `i` is a full block that the head announces. -/
def FullBlock (head : SumHead) (i : ℕ) : Prop :=
  (i : ℤ) + 1 < head.count ∨ (i : ℤ) + 1 = head.count ∧ head.remainder = 0

/-- Every full block of the file has the same rolling checksum as a full block that is summed,
whose digest in the protocol is the MD5 digest of the block. -/
structure Recognised (dig : Digests) (protocol seed : ℕ) (data : List UInt8) : Prop where
  count : 0 ≤ (basisHead protocol data).count
  blocks : ∀ k < data.length / (blockLenForFile data.length).toNat,
    ∃ i, FullBlock (basisHead protocol data) i ∧
      checksum1 (blockAt data (basisHead protocol data) i) =
        checksum1 (blockAt data (basisHead protocol data) k) ∧
      dig.compute (blockAt data (basisHead protocol data) i) (ChecksumType.forProtocol protocol)
          seed false =
        dig.md5 (blockAt data (basisHead protocol data) k ++ seedBytes seed)

section

variable {dig : Digests} {protocol : ℕ} {data : List UInt8}

/-- The head, whose numbers of blocks may be wrong, in terms of the file. -/
theorem basisHead_blength
    (protocol : ℕ) (data : List UInt8) :
  asUsize (basisHead protocol data).blength = (blockLenForFile data.length).toNat ∧
    (basisHead protocol data).blength.toNat = (blockLenForFile data.length).toNat ∧
    asUsize (basisHead protocol data).s2length = 16
  := by
  obtain ⟨hge, hle⟩ := blockLenForFile_range data.length
  refine ⟨?_, rfl, asUsize_protocolCsumType protocol⟩
  apply asUsize_of_nonneg
  · apply le_trans (by decide) hge
  · apply lt_of_le_of_lt hle (by decide)

/-- A window agrees with what is summed of a block if the block is full, has the same rolling
checksum and its digest is the MD5 digest of the window. -/
theorem agrees_summedAt_iff
    (h : (basisHead protocol data).Inside data.length) (seed : ℕ) {win : List UInt8} {i : ℕ}
    (hi : (i : ℤ) < (basisHead protocol data).count) :
  SumsAgree dig (blockLenForFile data.length).toNat 16 seed win
      (summedAt dig data (basisHead protocol data) (ChecksumType.forProtocol protocol) seed
        false i) ↔
    FullBlock (basisHead protocol data) i ∧
      checksum1 (blockAt data (basisHead protocol data) i) = checksum1 win ∧
      dig.compute (blockAt data (basisHead protocol data) i) (ChecksumType.forProtocol protocol)
          seed false =
        dig.md5 (win ++ seedBytes seed)
  := by
  obtain ⟨hb, hb', h16⟩ := basisHead_blength protocol data
  have h₁ := h.blength_ge
  have h₂ := h.blength_le
  have h₃ := h.remainder_lt
  have hrange := h.blockLength_range (i + 1 = (basisHead protocol data).count)
  rw [← hb']
  generalize basisHead protocol data = head at *
  have hfull : asUsize (blockLength head (i + 1 = head.count)) = head.blength.toNat ↔
      FullBlock head i := by
    rw [asUsize_of_nonneg (by omega) (by omega)]
    unfold FullBlock blockLength
    simp only [decide_eq_true_eq]
    split <;> omega
  unfold SumsAgree
  dsimp only [summedAt]
  rw [hfull]
  constructor
  · rintro ⟨hblock, hsum, hstrong⟩
    have heq : blockLength head (i + 1 = head.count) = head.blength := by
      have := hfull.mpr hblock
      rw [asUsize_of_nonneg (by omega) (by omega)] at this
      omega
    rw [summedBlock_of_full heq] at hsum hstrong
    have hlen := length_compute_forProtocol dig (blockAt data head i) protocol seed false
    rw [h16, List.take_of_length_le (le_of_eq hlen), hlen, min_self,
      List.take_of_length_le (le_of_eq (dig.length_md5 _)),
      List.take_of_length_le (le_of_eq hlen)] at hstrong
    apply And.intro hblock ⟨hsum, hstrong.symm⟩
  · rintro ⟨hblock, hsum, hstrong⟩
    have heq : blockLength head (i + 1 = head.count) = head.blength := by
      have := hfull.mpr hblock
      rw [asUsize_of_nonneg (by omega) (by omega)] at this
      omega
    rw [summedBlock_of_full heq, hstrong]
    refine ⟨hblock, hsum, ?_⟩
    rw [h16, List.take_of_length_le (le_of_eq (dig.length_md5 _))]

/-- When there are fewer than `2 ^ 31` blocks, all full blocks are summed. -/
theorem fullBlock_of_lt
    (protocol : ℕ) (hfew : FewBlocks data) {k : ℕ}
    (hk : k < data.length / (blockLenForFile data.length).toNat) :
  FullBlock (basisHead protocol data) k
  := by
  obtain ⟨hge, hle⟩ := blockLenForFile_range data.length
  obtain ⟨hlow, hhigh⟩ := ceil_bounds data.length (show 0 < blockLenForFile data.length by omega)
  have hcount := wrapI32_blocks data.length hfew
  rw [FullBlock, basisHead, makeSumHead_eq]
  dsimp only
  rw [hcount]
  have hplaces := Nat.mul_le_mul_right (blockLenForFile data.length).toNat hk
  have hdiv := Nat.div_mul_le_self data.length (blockLenForFile data.length).toNat
  generalize hb : blockLenForFile data.length = b at *
  generalize (data.length + b - 1) / b = c at *
  have hbz : (b.toNat : ℤ) = b := by omega
  have hend : ((k : ℤ) + 1) * b ≤ data.length := by
    rw [← hbz]
    exact_mod_cast le_trans hplaces hdiv
  have hlt : k < c := by
    by_contra hge'
    have := Int.mul_le_mul_of_nonneg_right (show c ≤ k by omega) (show 0 ≤ b by omega)
    rw [add_mul, one_mul] at hend
    omega
  rcases lt_or_eq_of_le (show (k : ℤ) + 1 ≤ c by omega) with hlt | heq
  · apply Or.inl hlt
  · refine Or.inr ⟨heq, ?_⟩
    rw [heq] at hend
    have hlen : (data.length : ℤ) = c * b := by omega
    rw [hlen]
    apply Int.mul_emod_left

/-- In a protocol whose checksum type is MD5 every full block is recognised. -/
theorem recognised_of_protocol
    (dig : Digests) (seed : ℕ) (hprotocol : 30 ≤ protocol) (hfew : FewBlocks data) :
  Recognised dig protocol seed data
  := by
  constructor
  · apply (tiles_makeSumHead data.length _ hfew).count_ge
  · intro k hk
    use k, fullBlock_of_lt protocol hfew hk, rfl
    rw [ChecksumType.forProtocol, if_pos hprotocol]
    rfl

/-- The pieces found with the checksums of the blocks are the full blocks and the bytes behind
them exactly when every full block is recognised. -/
theorem tailOnly_iff_recognised
    (dig : Digests) (h : (basisHead protocol data).Inside data.length) (seed : ℕ) :
  TailOnly data (blockLenForFile data.length).toNat
      ((greedy dig data (basisHead protocol data) (summedBlocks dig data
        (basisHead protocol data) (ChecksumType.forProtocol protocol) seed false) 16 seed).map
          DeltaOp.narrow) ↔
    Recognised dig protocol seed data
  := by
  obtain ⟨hb, hb', -⟩ := basisHead_blength protocol data
  obtain ⟨hge, hle⟩ := blockLenForFile_range data.length
  have hiff := tailOnly_iff dig data (show 0 < asUsize (basisHead protocol data).blength by omega)
    (by omega) (summedBlocks dig data (basisHead protocol data)
      (ChecksumType.forProtocol protocol) seed false) 16 seed
  rw [hb] at hiff
  rw [hiff]
  have hplace : ∀ k, agreeingAt dig data (summedBlocks dig data (basisHead protocol data)
      (ChecksumType.forProtocol protocol) seed false) (blockLenForFile data.length).toNat 16 seed
        (k * (blockLenForFile data.length).toNat) ≠ none ↔
      ∃ i, FullBlock (basisHead protocol data) i ∧
        checksum1 (blockAt data (basisHead protocol data) i) =
          checksum1 (blockAt data (basisHead protocol data) k) ∧
        dig.compute (blockAt data (basisHead protocol data) i)
            (ChecksumType.forProtocol protocol) seed false =
          dig.md5 (blockAt data (basisHead protocol data) k ++ seedBytes seed) := by
    intro k
    have hwin : window data (blockLenForFile data.length).toNat
        (k * (blockLenForFile data.length).toNat) = blockAt data (basisHead protocol data) k := rfl
    have hcount := h.count_ge
    rw [agreeingAt, agreeingBlock, hwin, Ne, List.findIdx?_eq_none_iff, summedBlocks]
    push Not
    constructor
    · rintro ⟨s, hs, hagrees⟩
      obtain ⟨i, hi, rfl⟩ := List.mem_map.mp hs
      have hlt := (List.mem_range'_1.mp hi).2
      use i
      apply (agrees_summedAt_iff h seed (by omega)).mp
      simpa using hagrees
    · rintro ⟨i, hi⟩
      have hlt : (i : ℤ) < (basisHead protocol data).count := by
        rcases hi.1 with hlt | heq
        · omega
        · omega
      refine ⟨_, List.mem_map_of_mem (List.mem_range'_1.mpr ⟨Nat.zero_le i, by omega⟩), ?_⟩
      simpa using (agrees_summedAt_iff h seed hlt).mpr hi
  constructor
  · intro hall
    apply Recognised.mk h.count_ge
    intro k hk
    apply (hplace k).mp (hall k hk)
  · intro hrec k hk
    apply (hplace k).mpr (hrec.blocks k hk)

/-- When the number of blocks is negative in 32 bits, computing the checksums panics. -/
theorem computeSumBufs_of_neg
    (dig : Digests) (hcount : (basisHead protocol data).count < 0) (ct : CsumType) (seed : ℕ)
    (proper : Bool) :
  ∃ e, computeSumBufs dig data (basisHead protocol data) ct seed proper = .error e
  := by
  have hb : (basisHead protocol data).blength = blockLenForFile data.length := rfl
  obtain ⟨hge, hle⟩ := blockLenForFile_range data.length
  have hlow : -2147483648 ≤ (basisHead protocol data).count := by
    rw [basisHead, makeSumHead_eq]
    apply (isI32_wrapI32 _).1
  have hpanic := (reserve_cases (by decide : 1 ≤ sumBufSize ∧ _) ⟨hlow, by omega⟩).2 hcount
  use .panic "capacity overflow"
  rw [computeSumBufs, if_neg (by omega), hpanic]
  rfl

/-- The receiver sums its file and the sender compares its own with the sums: the sender finds the
full blocks and sends the bytes behind them. -/
def SendsTail (dig : Digests) (protocol : ℕ) (seed : ℤ) (data : List UInt8) : Prop :=
  ∃ sums ops,
    computeSumBufs dig data (basisHead protocol data) (protocolCsumType protocol) (asU32 seed)
      false = .ok sums ∧
    findMatchesSeeded dig data (BlockHashTable.build (basisHead protocol data) sums)
      (asUsize (basisHead protocol data).s2length) (asU32 seed) = .ok ops ∧
    TailOnly data (asUsize (basisHead protocol data).blength) ops

theorem sendsTail_iff_recognised
    (dig : Digests) (protocol : ℕ) (seed : ℤ) (data : List UInt8) :
  SendsTail dig protocol seed data ↔ Recognised dig protocol (asU32 seed) data
  := by
  obtain ⟨hb, -, h16⟩ := basisHead_blength protocol data
  by_cases hcount : 0 ≤ (basisHead protocol data).count
  · have hinside : (basisHead protocol data).Inside data.length := inside_makeSumHead _ _ hcount
    have hsums := computeSumBufs_summedBlocks dig hinside (protocolCsumType protocol)
      (asU32 seed) false
    rw [csumType_protocolCsumType] at hsums
    rw [← tailOnly_iff_recognised dig hinside, SendsTail, hb, h16]
    constructor
    · rintro ⟨sums, ops, hs, hops, htail⟩
      cases hsums.symm.trans hs
      rcases findMatchesSeeded_greedy dig data (basisHead protocol data) (summedBlocks dig data
        (basisHead protocol data) (ChecksumType.forProtocol protocol) (asU32 seed) false) 16
        (asU32 seed) with ⟨hlong, -⟩ | heq
      · omega
      · cases heq.symm.trans hops
        apply htail
    · intro htail
      rcases findMatchesSeeded_greedy dig data (basisHead protocol data) (summedBlocks dig data
        (basisHead protocol data) (ChecksumType.forProtocol protocol) (asU32 seed) false) 16
        (asU32 seed) with ⟨hlong, -⟩ | heq
      · omega
      · apply Exists.intro _ ⟨_, hsums, heq, htail⟩
  · constructor
    · rintro ⟨sums, ops, hs, -⟩
      obtain ⟨e, he⟩ := computeSumBufs_of_neg dig (not_le.mp hcount) (protocolCsumType protocol)
        (asU32 seed) false
      rw [he] at hs
      cases hs
    · intro hrec
      apply absurd hrec.count hcount

end

section

variable {X : Type} {Reply : X → Type} {H : Type}
  {answer : H → (x : X) → Option (Reply x × H)}

/-- What the receiver writes about its file reaches the sender. The sender then resends no more
than the bytes behind the last full block exactly in the protocols from 30 on with fewer than
`2 ^ 31` blocks, and where the digests of the protocol and MD5 agree by chance. -/
theorem sendsTail_iff
    (dig : Digests) (protocol : ℕ) (seed : ℤ) (data : List UInt8) :
  (∀ sums,
    computeSumBufs dig data (basisHead protocol data) (protocolCsumType protocol) (asU32 seed)
      false = .ok sums →
    ∃ wire,
      Proc.Writes answer (do
        writeSumHead (basisHead protocol data)
        writeSumBufs sums : Session Reply Unit) wire () ∧
      Proc.Reads answer (do
        let head ← readSumHead
        let sums ← readSumBufs head
        pure (head, sums) : Session Reply _) wire (basisHead protocol data, sums)) ∧
  (SendsTail dig protocol seed data ↔
    30 ≤ protocol ∧ FewBlocks data ∨ Recognised dig protocol (asU32 seed) data)
  := by
  constructor
  · intro sums hsums
    by_cases hcount : 0 ≤ (basisHead protocol data).count
    · have hinside : (basisHead protocol data).Inside data.length := inside_makeSumHead _ _ hcount
      cases (computeSumBufs_summedBlocks dig hinside _ _ _).symm.trans hsums
      use encodeSumHead (basisHead protocol data) ++ encodeSumBufs (summedBlocks dig data
        (basisHead protocol data) (csumTypeToChecksumType (protocolCsumType protocol))
        (asU32 seed) false)
      constructor
      · apply (writes_writeSumHead _).bind (writes_writeSumBufs _)
      · apply (reads_readSumHead (hinside.inRange (asUsize_csumSumLen _).2.1)).bind
        apply (reads_summedBlocks dig hinside rfl (asU32 seed) false).map
    · obtain ⟨e, he⟩ := computeSumBufs_of_neg dig (not_le.mp hcount) (protocolCsumType protocol)
        (asU32 seed) false
      rw [he] at hsums
      cases hsums
  · rw [sendsTail_iff_recognised]
    constructor
    · apply Or.inr
    · rintro (⟨hprotocol, hfew⟩ | hrec)
      · apply recognised_of_protocol dig _ hprotocol hfew
      · apply hrec

/-- A block of zeros that both ends have, in protocol 29. -/
theorem not_sendsTail :
  ¬ SendsTail digestsOfZeros 29 0 (List.replicate 700 0)
  := by
  rw [sendsTail_iff_recognised]
  intro h
  have hlen : (List.replicate 700 (0 : UInt8)).length = 700 := List.length_replicate
  have hhead : basisHead 29 (List.replicate 700 (0 : UInt8)) = ⟨1, 700, 16, 0⟩ := by
    rw [basisHead, hlen]
    decide
  have hblocks := h.blocks
  rw [hlen, hhead] at hblocks
  obtain ⟨i, hfull, -, hdigest⟩ := hblocks 0 (by decide)
  have hi : i = 0 := by
    unfold FullBlock at hfull
    dsimp only at hfull
    omega
  have hblock : blockAt (List.replicate 700 (0 : UInt8)) ⟨1, 700, 16, 0⟩ 0 =
      List.replicate 700 0 := by
    rw [blockAt, zero_mul, List.drop_zero]
    apply List.take_of_length_le
    rw [hlen]
    decide
  have hmd4 : digestsOfZeros.compute (List.replicate 700 0) (ChecksumType.forProtocol 29)
      (asU32 0) false = digestsOfZeros.md4 (List.replicate 700 0 ++ []) := rfl
  have hmd5 : digestsOfZeros.md5 (List.replicate 700 0 ++ seedBytes (asU32 0)) =
      digestsOfZeros.md5 (List.replicate 700 0 ++ []) := rfl
  rw [hi, hblock, hmd4, hmd5, List.append_nil, digestsOfZeros] at hdigest
  dsimp only at hdigest
  rw [if_pos rfl, if_pos rfl] at hdigest
  revert hdigest
  decide

end
