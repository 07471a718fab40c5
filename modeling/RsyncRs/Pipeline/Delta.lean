import RsyncRs.Delta.MatchBlocks
import RsyncRs.Delta.Token

/-!
# Delta transfer

The sender turns the pieces it found into tokens, and the receiver applies the tokens to its
basis. Under the assumption that equal checksums come from equal blocks, the receiver gets
the data of the sender.
-/

variable {X : Type} {Reply : X → Type} {H : Type}

/-! ### Sending -/

/-- The token for a piece of `data`. -/
def opToken (data : List UInt8) : DeltaOp → Except Error Token
  | .literal offset len => do
    let bytes ← slice data offset (offset + len)
    pure (.literal bytes)
  | .blockMatch blockIdx _ => pure (.blockMatch (wrapI32 blockIdx))

/-- Send a piece of `data`. -/
def sendOp (data buf : List UInt8) (op : DeltaOp) : Session Reply (List UInt8) := do
  let tok ← opToken data op
  TokenWriter.send buf tok

/-- Send the pieces of `data` and the end of the file. -/
def sendOps (data : List UInt8) (ops : List DeltaOp) : Session Reply Unit := do
  let buf ← Proc.forEach (sendOp data) [] ops
  TokenWriter.finish buf

/-! ### Receiving -/

/-- The block `idx` of the basis. Beyond the basis it is empty. -/
def basisBlock (basis : List UInt8) (head : SumHead) (idx : ℤ) : Except Error (List UInt8) :=
  let i := asUsize idx
  let count := asUsize head.count
  let offset := mulUsize i (asUsize head.blength)
  let blockLen := asUsize (blockLength head (0 < count ∧ i = count - 1))
  if offset < basis.length then
    slice basis offset (min (addUsize offset blockLen) basis.length)
  else
    pure []

/-- The file made of the tokens and the blocks of the basis. -/
def applyDelta (basis : List UInt8) (head : SumHead) : List Token → Except Error (List UInt8)
  | [] => pure []
  | .literal data :: toks => do
    let out ← applyDelta basis head toks
    pure (data ++ out)
  | .blockMatch idx :: toks => do
    let block ← basisBlock basis head idx
    let out ← applyDelta basis head toks
    pure (block ++ out)

/-- The file made of single bytes and blocks of the basis. -/
def applyItems (basis : List UInt8) (head : SumHead) :
    List (UInt8 ⊕ ℤ) → Except Error (List UInt8)
  | [] => pure []
  | .inl b :: items => do
    let out ← applyItems basis head items
    pure (b :: out)
  | .inr idx :: items => do
    let block ← basisBlock basis head idx
    let out ← applyItems basis head items
    pure (block ++ out)

/-! ### The file depends on bytes and blocks only -/

theorem applyItems_literal
    (basis : List UInt8) (head : SumHead) (data : List UInt8) (items : List (UInt8 ⊕ ℤ)) :
  applyItems basis head (data.map .inl ++ items) =
    (applyItems basis head items >>= fun out => pure (data ++ out))
  := by
  induction data with
  | nil =>
      cases h : applyItems basis head items with
      | error e => simp [h]
      | ok out => simp [h]
  | cons b data ih =>
      rw [List.map_cons, List.cons_append, applyItems, ih]
      cases applyItems basis head items with
      | error e => rfl
      | ok out => rfl

/-- How literal bytes are split into tokens makes no difference. -/
theorem applyDelta_eq
    (basis : List UInt8) (head : SumHead) (toks : List Token) :
  applyDelta basis head toks = applyItems basis head (tokenItems toks)
  := by
  induction toks with
  | nil => rfl
  | cons tok toks ih =>
      cases tok with
      | literal data =>
          rw [applyDelta, ih, tokenItems_cons, Token.items, applyItems_literal]
      | blockMatch idx =>
          rw [applyDelta, ih]
          rfl

/-! ### Literal runs -/

/-- Lengths of the literal runs between the blocks found, when the last block ended at
`pos`. -/
def literalRuns (blength len : ℕ) : ℕ → List DeltaOp → List ℕ
  | pos, [] => [len - pos]
  | pos, .literal _ _ :: ops => literalRuns blength len pos ops
  | pos, .blockMatch _ offset :: ops =>
    (offset - pos) :: literalRuns blength len (offset + blength) ops

theorem le_literalRuns
    {good : ℕ → ℕ → Prop} {blength len start pos : ℕ} {ops : List DeltaOp}
    (hstart : start ≤ pos) (h : Covers good blength len pos ops) :
  ∃ r ∈ literalRuns blength len start ops, pos - start ≤ r
  := by
  induction ops generalizing pos with
  | nil =>
      use len - start, List.mem_singleton_self _
      rw [Covers] at h
      omega
  | cons op ops ih =>
      cases op with
      | literal offset l =>
          obtain ⟨rfl, n, hn, -, -, hrest⟩ := h
          obtain ⟨r, hr, hle⟩ := ih (by omega) hrest
          use r, hr
          omega
      | blockMatch idx offset =>
          obtain ⟨rfl, -⟩ := h
          use offset - start, List.mem_cons_self

/-- No literal run is longer than the data. -/
theorem literalRuns_le
    {good : ℕ → ℕ → Prop} {blength len start pos : ℕ} {ops : List DeltaOp}
    (h : Covers good blength len pos ops) :
  ∀ r ∈ literalRuns blength len start ops, r ≤ len
  := by
  induction ops generalizing start pos with
  | nil =>
      intro r hr
      rw [List.mem_singleton.mp hr]
      apply Nat.sub_le
  | cons op ops ih =>
      cases op with
      | literal offset l =>
          obtain ⟨-, n, -, -, -, hrest⟩ := h
          apply ih hrest
      | blockMatch idx offset =>
          obtain ⟨rfl, hle, -, hrest⟩ := h
          intro r hr
          rcases List.mem_cons.mp hr with rfl | hr
          · omega
          · apply ih hrest r hr

/-! ### The pieces make up the data -/

/-- The block `idx` of the basis stands at `pos` in the data. -/
def Faithful (basis data : List UInt8) (head : SumHead) (blength idx pos : ℕ) : Prop :=
  (idx : ℤ) < 2147483647 ∧ basisBlock basis head idx = .ok (window data blength pos)

/-- Pieces that cover the data, with literal runs whose length fits into 32 bits and with
faithful blocks, are sent as tokens that give the data. -/
theorem applyDelta_pieces
    {basis data : List UInt8} {head : SumHead} {blength start pos : ℕ} {ops : List DeltaOp}
    (hstart : start ≤ pos)
    (h : Covers (Faithful basis data head blength) blength data.length pos ops)
    (hruns : ∀ r ∈ literalRuns blength data.length start ops, r < 4294967296) :
  ∃ pieces, ops.mapM (opToken data) = .ok pieces ∧ (∀ tok ∈ pieces, tok.Sendable) ∧
    applyDelta basis head pieces = .ok (data.drop pos)
  := by
  induction ops generalizing start pos with
  | nil =>
      use [], rfl
      constructor
      · intro tok htok
        cases htok
      · rw [Covers] at h
        rw [h, List.drop_length]
        rfl
  | cons op ops ih =>
      cases op with
      | literal offset l =>
          obtain ⟨rfl, n, hn, hl, hle, hrest⟩ := h
          obtain ⟨r, hr, hnr⟩ := le_literalRuns (show start ≤ offset + n by omega) hrest
          have hl' : l = n := by
            have := hruns r hr
            omega
          obtain ⟨pieces, hp, hs, ha⟩ := ih (show start ≤ offset + n by omega) hrest hruns
          have hslice : slice data offset (offset + n) = .ok ((data.drop offset).take n) := by
            rw [slice, if_neg (by omega), Nat.add_sub_cancel_left]
            rfl
          have htok : opToken data (.literal offset l) =
              .ok (.literal ((data.drop offset).take n)) := by
            rw [opToken, hl', hslice]
            rfl
          use .literal ((data.drop offset).take n) :: pieces
          refine ⟨?_, ?_, ?_⟩
          · rw [List.mapM_cons, htok, hp]
            rfl
          · intro tok htok
            rcases List.mem_cons.mp htok with rfl | htok
            · trivial
            · apply hs tok htok
          · rw [applyDelta, ha, ← List.drop_drop]
            simp only [ok_bind]
            apply congrArg Except.ok (List.take_append_drop n (data.drop offset))
      | blockMatch idx offset =>
          obtain ⟨rfl, hle, ⟨hidx, hblock⟩, hrest⟩ := h
          obtain ⟨pieces, hp, hs, ha⟩ := ih (le_refl _) hrest
            fun r hr => hruns r (List.mem_cons_of_mem _ hr)
          have hw : wrapI32 idx = idx := wrapI32_of_isI32 ⟨by omega, by omega⟩
          use .blockMatch idx :: pieces
          refine ⟨?_, ?_, ?_⟩
          · rw [List.mapM_cons, opToken, hw, hp]
            rfl
          · intro tok htok
            rcases List.mem_cons.mp htok with rfl | htok
            · apply And.intro (by omega) hidx
            · apply hs tok htok
          · rw [applyDelta, hblock, ha, ← List.drop_drop]
            simp only [ok_bind]
            apply congrArg Except.ok (List.take_append_drop blength (data.drop offset))

/-- Sending pieces is sending their tokens. -/
theorem sendOps_eq
    {data : List UInt8} {ops : List DeltaOp} {pieces : List Token}
    (h : ops.mapM (opToken data) = .ok pieces) :
  (sendOps data ops : Session Reply Unit) = TokenWriter.sendAll pieces
  := by
  have key : ∀ buf, (Proc.forEach (sendOp data) buf ops : Session Reply _) =
      Proc.forEach TokenWriter.send buf pieces := by
    induction ops generalizing pieces with
    | nil =>
        cases h
        intro buf
        rfl
    | cons op ops ih =>
        rw [List.mapM_cons] at h
        cases hop : opToken data op with
        | error e =>
            rw [hop] at h
            cases h
        | ok tok =>
            rw [hop, ok_bind] at h
            cases hops : ops.mapM (opToken data) with
            | error e =>
                rw [hops] at h
                cases h
            | ok toks =>
                rw [hops] at h
                cases h
                intro buf
                rw [Proc.forEach, Proc.forEach, sendOp, hop]
                congr
                funext buf'
                apply ih hops
  rw [sendOps, key]
  rfl

/-! ### The receiver gets the data -/

/-- Where a window of the data and a full block of the basis agree in the rolling checksum
and in the bytes of the strong checksums that are compared, they are equal. -/
def NoCollision (dig : Digests) (strongType : ChecksumType) (seed : ℕ)
    (basis data : List UInt8) (head : SumHead) : Prop :=
  ∀ pos idx : ℕ, pos + head.blength.toNat ≤ data.length → (idx : ℤ) < head.count →
    (blockAt basis head idx).length = head.blength.toNat →
    checksum1 (window data head.blength.toNat pos) = checksum1 (blockAt basis head idx) →
    (dig.md5 (window data head.blength.toNat pos ++ seedBytes seed)).take strongType.digestLen =
      (dig.compute (blockAt basis head idx) strongType seed false).take strongType.digestLen →
    window data head.blength.toNat pos = blockAt basis head idx

/-- The receiver takes the full block `idx` of a basis that the head lays out. -/
theorem SumHead.Tiles.basisBlock_eq
    {head : SumHead} {basis : List UInt8} (h : head.Tiles basis.length) {idx : ℕ}
    (hidx : (idx : ℤ) < head.count) (hfull : 0 < (blockAt basis head idx).length) :
  basisBlock basis head idx = .ok (blockAt basis head idx)
  := by
  have h₁ := h.blength_ge
  have h₂ := h.blength_le
  have h₃ := h.count_lt
  have hi : asUsize idx = idx := by
    rw [asUsize_of_nonneg (by omega) (by omega), Int.toNat_natCast]
  have hc : asUsize head.count = head.count.toNat := asUsize_of_nonneg (by omega) (by omega)
  have hlast : (0 < asUsize head.count ∧ asUsize idx = asUsize head.count - 1) =
      ((idx : ℤ) + 1 = head.count) := by
    rw [hi, hc]
    apply propext
    omega
  have hoff : mulUsize idx (asUsize head.blength) = idx * head.blength.toNat := by
    have hbig : idx * head.blength.toNat ≤ 2147483647 * 131072 :=
      Nat.mul_le_mul (by omega) (by omega)
    rw [asUsize_of_nonneg (by omega) (by omega), mulUsize, Nat.mod_eq_of_lt (by omega)]
  have hin : idx * head.blength.toNat < basis.length := by
    rw [blockAt, List.length_take, List.length_drop] at hfull
    omega
  have hslice := h.slice_block hidx
  unfold basisBlock
  simp only [hlast]
  rw [hi, if_pos (by rw [hoff]; apply hin)]
  apply hslice

/-- A full block with the length of the window is a block of that many bytes. -/
theorem SumHead.Tiles.length_blockAt
    {head : SumHead} {basis : List UInt8} (h : head.Tiles basis.length) {idx : ℕ}
    (hidx : (idx : ℤ) < head.count)
    (hlen : blockLength head (idx + 1 = head.count) = head.blength) :
  (blockAt basis head idx).length = head.blength.toNat
  := by
  have h₁ := h.blength_ge
  have hend : (idx + 1) * head.blength ≤ basis.length := by
    by_cases hlast : (idx : ℤ) + 1 = head.count
    · have hl := h.last idx hlast
      simp only [hlast, decide_true] at hlen
      rw [hlen] at hl
      rw [add_mul, one_mul, hl]
    · apply h.full idx
      omega
  have hend' : (idx + 1) * head.blength.toNat ≤ basis.length := by
    have hb : head.blength = head.blength.toNat := by omega
    rw [hb] at hend
    exact_mod_cast hend
  rw [add_mul, one_mul] at hend'
  rw [blockAt, List.length_take, List.length_drop]
  omega

/-- Where the checksums of a window are those of a block of the basis, the block stands
there. -/
theorem faithful_of_sameSums
    {dig : Digests} {ct : CsumType} {seed : ℕ} {basis data : List UInt8} {head : SumHead}
    (h : head.Tiles basis.length) (h2 : head.s2length = csumSumLen ct)
    (hcoll : NoCollision dig (csumTypeToChecksumType ct) seed basis data head) {idx pos : ℕ}
    {s : SumBuf} (hpos : pos + head.blength.toNat ≤ data.length)
    (hs : SameSums dig (blockSums dig basis head (csumTypeToChecksumType ct) seed false)
      head.blength.toNat (asUsize head.s2length) seed (window data head.blength.toNat pos)
      idx s) :
  Faithful basis data head head.blength.toNat idx pos
  := by
  have h₁ := h.blength_ge
  have h₂ := h.blength_le
  have h₃ := h.count_lt
  obtain ⟨hidx, rfl⟩ := getElem?_blockSums hs.get
  obtain ⟨hs2, -, hd⟩ := asUsize_csumSumLen ct
  have hlen : blockLength head (idx + 1 = head.count) = head.blength := by
    obtain ⟨hpos, hle⟩ := h.inside.blockLength_range (idx + 1 = head.count)
    have hl := hs.len
    dsimp only [sumBufAt] at hl
    rw [asUsize_of_nonneg (by omega) (by omega)] at hl
    omega
  have hfull := h.length_blockAt hidx hlen
  have hstrong : (dig.md5 (window data head.blength.toNat pos ++ seedBytes seed)).take
        (csumTypeToChecksumType ct).digestLen =
      (dig.compute (blockAt basis head idx) (csumTypeToChecksumType ct) seed false).take
        (csumTypeToChecksumType ct).digestLen := by
    have hst := hs.strong
    dsimp only [sumBufAt] at hst
    rw [h2, hs2] at hst
    have hcomp := dig.digestLen_le_length_compute (blockAt basis head idx)
      (csumTypeToChecksumType ct) seed false
    rw [List.length_take, min_eq_left hcomp, min_self, List.take_take, min_self] at hst
    obtain hz | hp := Nat.eq_zero_or_pos (csumTypeToChecksumType ct).digestLen
    · rw [hz, List.take_zero, List.take_zero]
    · apply hst hp
  have heq := hcoll pos idx hpos hidx hfull hs.rolling hstrong
  constructor
  · omega
  · rw [heq]
    apply h.basisBlock_eq hidx
    omega

/-- The delta transfer gives the receiver the data of the sender. The head and the checksums
of the basis reach the sender as they were computed, the tokens of the pieces it found reach
the receiver, and applied to the basis they give the data. -/
theorem delta_transfer
    (answer : H → (x : X) → Option (Reply x × H)) (dig : Digests) (ct : CsumType) (seed : ℤ)
    (basis data : List UInt8)
    (hcount : (basis.length + blockLenForFile basis.length - 1) /
      blockLenForFile basis.length < 2147483648)
    (hcoll : NoCollision dig (csumTypeToChecksumType ct) (asU32 seed) basis data
      (makeSumHead basis.length (csumSumLen ct)))
    (hruns : ∀ sums ops,
      computeSumBufs dig basis (makeSumHead basis.length (csumSumLen ct)) ct (asU32 seed) false =
        .ok sums →
      findMatchesSeeded dig data
        (BlockHashTable.build (makeSumHead basis.length (csumSumLen ct)) sums)
        (asUsize (csumSumLen ct)) (asU32 seed) = .ok ops →
      ∀ r ∈ literalRuns (blockLenForFile basis.length).toNat data.length 0 ops,
        r < 4294967296) :
  ∃ head sums ops headWire wire toks,
    head = makeSumHead basis.length (csumSumLen ct) ∧
    computeSumBufs dig basis head ct (asU32 seed) false = .ok sums ∧
    Proc.Writes answer
      (do writeSumHead head; writeSumBufs sums : Session Reply Unit) headWire () ∧
    Proc.Reads answer
      (do let h ← readSumHead; let s ← readSumBufs h; pure (h, s) : Session Reply _)
      headWire (head, sums) ∧
    findMatchesSeeded dig data (BlockHashTable.build head sums) (asUsize head.s2length)
      (asU32 seed) = .ok ops ∧
    Proc.Writes answer (sendOps data ops : Session Reply Unit) wire () ∧
    Proc.Reads answer (TokenReader.readTokens : Session Reply _) wire toks ∧
    applyDelta basis head toks = .ok data
  := by
  have h := tiles_makeSumHead basis.length (csumSumLen ct) hcount
  have h2 : (makeSumHead basis.length (csumSumLen ct)).s2length = csumSumLen ct := rfl
  have hbl : (makeSumHead basis.length (csumSumLen ct)).blength =
    blockLenForFile basis.length := rfl
  generalize makeSumHead basis.length (csumSumLen ct) = head at *
  have h₁ := h.blength_ge
  have h₃ := h.blength_le
  have hb : asUsize head.blength = head.blength.toNat := asUsize_of_nonneg (by omega) (by omega)
  have hsums := computeSumBufs_eq dig h ct (asU32 seed) false
  obtain ⟨ops, hops, hcov⟩ := findMatchesSeeded_spec dig data head
    (length_sum2_blockSums dig basis h2 (asU32 seed) false) (asUsize head.s2length)
    (asU32 seed)
  rw [hb] at hcov
  have hfaith := hcov.mono fun idx pos hpos ⟨s, hs⟩ =>
    faithful_of_sameSums h h2 hcoll hpos hs
  rw [← h2] at hruns
  rw [← hbl] at hruns
  obtain ⟨pieces, hp, hsend, happly⟩ :=
    applyDelta_pieces (le_refl 0) hfaith (hruns _ _ hsums hops)
  obtain ⟨wire, toks, hw, hr, hi, -⟩ := writes_sendAll answer hsend
  use head, blockSums dig basis head (csumTypeToChecksumType ct) (asU32 seed) false, ops,
    encodeSumHead head ++
      encodeSumBufs (blockSums dig basis head (csumTypeToChecksumType ct) (asU32 seed) false),
    wire, toks
  refine ⟨rfl, hsums, ?_, ?_, hops, ?_, hr, ?_⟩
  · apply (writes_writeSumHead head).bind (writes_writeSumBufs _)
  · apply (reads_readSumHead (h.inside.inRange _)).bind
    · apply (reads_blockSums dig h h2 (asU32 seed) false).map
    · rw [h2]
      apply (asUsize_csumSumLen ct).2.1
  · rw [sendOps_eq hp]
    apply hw
  · rw [applyDelta_eq, hi, ← applyDelta_eq, happly, List.drop_zero]

/-- When the data are shorter than `2 ^ 32` bytes, so are the literal runs. -/
theorem literalRuns_lt
    (dig : Digests) {ct : CsumType} (seed : ℕ) {basis data : List UInt8} {head : SumHead}
    (h : head.Tiles basis.length) (h2 : head.s2length = csumSumLen ct)
    (hdata : data.length < 4294967296) {sums : List SumBuf} {ops : List DeltaOp}
    (hsums : computeSumBufs dig basis head ct seed false = .ok sums)
    (hops : findMatchesSeeded dig data (BlockHashTable.build head sums)
      (asUsize head.s2length) seed = .ok ops) :
  ∀ r ∈ literalRuns head.blength.toNat data.length 0 ops, r < 4294967296
  := by
  have h₁ := h.blength_ge
  have h₃ := h.blength_le
  have hb : asUsize head.blength = head.blength.toNat := asUsize_of_nonneg (by omega) (by omega)
  cases (computeSumBufs_eq dig h ct seed false).symm.trans hsums
  obtain ⟨ops', hops', hcov⟩ := findMatchesSeeded_spec dig data head
    (length_sum2_blockSums dig basis h2 seed false) (asUsize head.s2length) seed
  cases hops'.symm.trans hops
  rw [hb] at hcov
  intro r hr
  have hle := literalRuns_le hcov r hr
  omega

theorem delta_transfer_zeros :
  ∃ head sums ops headWire wire toks,
    head = makeSumHead 700 16 ∧
    computeSumBufs digestsOfZeros (List.replicate 700 0) head .md5 0 false = .ok sums ∧
    Proc.Writes (fun h _ => some ((), h) : Unit → Unit → Option (Unit × Unit))
      (do writeSumHead head; writeSumBufs sums : Session _ Unit) headWire () ∧
    Proc.Reads (fun h _ => some ((), h) : Unit → Unit → Option (Unit × Unit))
      (do let h ← readSumHead; let s ← readSumBufs h; pure (h, s) : Session _ _)
      headWire (head, sums) ∧
    findMatchesSeeded digestsOfZeros (List.replicate 700 0) (BlockHashTable.build head sums)
      (asUsize head.s2length) 0 = .ok ops ∧
    Proc.Writes (fun h _ => some ((), h) : Unit → Unit → Option (Unit × Unit))
      (sendOps (List.replicate 700 0) ops : Session _ Unit) wire () ∧
    Proc.Reads (fun h _ => some ((), h) : Unit → Unit → Option (Unit × Unit))
      (TokenReader.readTokens : Session _ _) wire toks ∧
    applyDelta (List.replicate 700 0) head toks = .ok (List.replicate 700 0)
  := by
  have hlen : (List.replicate 700 (0 : UInt8)).length = 700 := List.length_replicate
  have hcoll : NoCollision digestsOfZeros .md5 0 (List.replicate 700 0) (List.replicate 700 0)
      (makeSumHead 700 16) := by
    intro pos idx hpos hidx _ _ _
    have hb : (makeSumHead 700 16).blength.toNat = 700 := rfl
    have hc : (makeSumHead 700 16).count = 1 := rfl
    rw [hb, hlen] at hpos
    rw [hc] at hidx
    have hp : pos = 0 := by omega
    have hi : idx = 0 := by omega
    rw [hp, hi, window, blockAt, zero_mul]
  have htiles : (makeSumHead 700 16).Tiles (List.replicate 700 (0 : UInt8)).length := by
    rw [hlen]
    apply tiles_makeSumHead 700 16 (by decide)
  have h := delta_transfer (fun h _ => some ((), h) : Unit → Unit → Option (Unit × Unit))
    digestsOfZeros .md5 0 (List.replicate 700 0) (List.replicate 700 0)
  rw [hlen] at h
  apply h (by decide) hcoll
  intro sums ops hsums hops
  have hr := literalRuns_lt digestsOfZeros 0 htiles rfl (by rw [hlen]; decide) hsums hops
  rw [hlen] at hr
  apply hr
