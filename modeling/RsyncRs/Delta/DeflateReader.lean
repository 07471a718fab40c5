import RsyncRs.Delta.DeflateWriter

/-!
# What the reader of deflated tokens delivers

The reader's caller reads tokens up to the end of the file and shows the reader the bytes of
each block it is given. From the bytes of pieces whose literal bytes come only when all
blocks before them have been delivered, it gets the literal bytes and the blocks in order.
-/

variable {X : Type} {Reply : X → Type} {H : Type}
  {answer : H → (x : X) → Option (Reply x × H)} {F : Flate}

namespace DeflatedTokenReader

/-! ### The caller -/

/-- What the caller holds: the reader, the bytes of the blocks to come, and the tokens. -/
abbrev Receiving (F : Flate) : Type :=
  DeflatedTokenReader F × List (List UInt8) × List Token

/-- Keep a token, and show the reader the bytes of the block when it is one. -/
def keep (blocks : List (List UInt8)) (acc : List Token) :
    Option Token × DeflatedTokenReader F → Session Reply (Receiving F ⊕ List Token)
  | (some (.literal data), tr) => pure (.inl (tr, blocks, acc ++ [.literal data]))
  | (some (.blockMatch idx), tr) => do
    let tr ← tr.seeBlock (blocks.headD [])
    pure (.inl (tr, blocks.tail, acc ++ [.blockMatch idx]))
  | (none, _) => pure (.inr acc)

/-- Read a token and keep it. -/
def collect (s : Receiving F) : Session Reply (Receiving F ⊕ List Token) := do
  let res ← s.1.readToken
  keep s.2.1 s.2.2 res

/-- Read the tokens up to the end of the file, with the bytes of the blocks at hand. -/
def readTokens (F : Flate) (blocks : List (List UInt8)) : Session Reply (List Token) :=
  Proc.loop collect (new F, blocks, [])

/-- A round of the reader that goes on is part of the next token. -/
theorem reads_collect_again
    {tr tr' : DeflatedTokenReader F} {blocks : List (List UInt8)} {acc toks : List Token}
    {bs cs : List UInt8} (h : Proc.Reads answer (step tr : Session Reply _) bs (.inl tr'))
    (hl : Proc.Reads answer (Proc.loop collect (tr', blocks, acc) : Session Reply _) cs toks) :
  Proc.Reads answer (Proc.loop collect (tr, blocks, acc) : Session Reply _) (bs ++ cs) toks
  := by
  intro closed w rest hw
  rw [List.append_assoc] at hw
  have hstep := h closed w (cs ++ rest) hw
  obtain ⟨x, w₁, hx, hrest⟩ := (hl closed { w with input := cs ++ rest } rest rfl).loop_inv
  obtain ⟨res, w₀, hres, hkeep⟩ := hx.bind_inv
  have hround : Proc.Returns answer closed (collect (tr, blocks, acc) : Session Reply _) w x
      w₁ := by
    apply Proc.Returns.bind _ hkeep
    apply Proc.returns_loop_again hstep hres
  cases x with
  | inl s => apply Proc.returns_loop_again hround hrest
  | inr a =>
      obtain ⟨rfl, rfl⟩ := hrest
      apply Proc.returns_loop_done hround

variable (answer) in
/-- From `bs` on the caller gets tokens with the given bytes and blocks, and then the end of
the file. -/
def Delivers (tr : DeflatedTokenReader F) (blocks : List (List UInt8)) (bs : List UInt8)
    (its : List (UInt8 ⊕ ℤ)) : Prop :=
  ∀ acc, ∃ toks, Proc.Reads answer (Proc.loop collect (tr, blocks, acc) : Session Reply _) bs
    toks ∧ tokenItems toks = tokenItems acc ++ its

theorem Delivers.again
    {tr tr' : DeflatedTokenReader F} {blocks : List (List UInt8)} {bs cs : List UInt8}
    {its : List (UInt8 ⊕ ℤ)}
    (h : Proc.Reads answer (step tr : Session Reply _) bs (.inl tr'))
    (hd : Delivers answer tr' blocks cs its) :
  Delivers answer tr blocks (bs ++ cs) its
  := by
  intro acc
  obtain ⟨toks, hl, hi⟩ := hd acc
  use toks
  apply And.intro (reads_collect_again h hl) hi

/-- What a reader delivers is delivered by one that reads `pre` and does what it does. -/
theorem Delivers.of_step
    {tr tr' : DeflatedTokenReader F} {blocks : List (List UInt8)} {pre bs : List UInt8}
    {its : List (UInt8 ⊕ ℤ)}
    (h : Proc.Consumes answer (step tr : Session Reply _) pre (step tr'))
    (hd : Delivers answer tr' blocks bs its) :
  Delivers answer tr blocks (pre ++ bs) its
  := by
  intro acc
  obtain ⟨toks, hl, hi⟩ := hd acc
  use toks
  refine ⟨?_, hi⟩
  intro closed w rest hw
  rw [List.append_assoc] at hw
  obtain ⟨x, w₁, hx, hrest⟩ := (hl closed { w with input := bs ++ rest } rest rfl).loop_inv
  obtain ⟨res, w₀, hres, hkeep⟩ := hx.bind_inv
  obtain ⟨y, w₂, hy, hend⟩ := hres.loop_inv
  have hstep := h closed w w₂ _ y hw hy
  have htoken : Proc.Returns answer closed (readToken tr : Session Reply _) w res w₀ := by
    cases y with
    | inl s => apply Proc.returns_loop_again hstep hend
    | inr a =>
        obtain ⟨rfl, rfl⟩ := hend
        apply Proc.returns_loop_done hstep
  have hround : Proc.Returns answer closed (collect (tr, blocks, acc) : Session Reply _) w x
      w₁ := htoken.bind hkeep
  cases x with
  | inl s => apply Proc.returns_loop_again hround hrest
  | inr a =>
      obtain ⟨rfl, rfl⟩ := hrest
      apply Proc.returns_loop_done hround

theorem Delivers.literal
    {tr tr' : DeflatedTokenReader F} {blocks : List (List UInt8)} {data bs cs : List UInt8}
    {its : List (UInt8 ⊕ ℤ)}
    (h : Proc.Reads answer (step tr : Session Reply _) bs (.inr (some (.literal data), tr')))
    (hd : Delivers answer tr' blocks cs its) :
  Delivers answer tr blocks (bs ++ cs) (data.map .inl ++ its)
  := by
  intro acc
  obtain ⟨toks, hl, hi⟩ := hd (acc ++ [.literal data])
  use toks
  constructor
  · apply Proc.reads_loop_again _ hl
    apply (Proc.reads_loop_done h).bind_nil
    apply Proc.reads_pure
  · rw [hi]
    simp [Token.items]

theorem Delivers.blockMatch
    {tr tr₁ tr₂ : DeflatedTokenReader F} {bytes : List UInt8} {blocks : List (List UInt8)}
    {idx : ℤ} {bs cs : List UInt8} {its : List (UInt8 ⊕ ℤ)}
    (h : Proc.Reads answer (step tr : Session Reply _) bs (.inr (some (.blockMatch idx), tr₁)))
    (hsee : tr₁.seeBlock bytes = .ok tr₂) (hd : Delivers answer tr₂ blocks cs its) :
  Delivers answer tr (bytes :: blocks) (bs ++ cs) (.inr idx :: its)
  := by
  intro acc
  obtain ⟨toks, hl, hi⟩ := hd (acc ++ [.blockMatch idx])
  use toks
  constructor
  · apply Proc.reads_loop_again _ hl
    apply (Proc.reads_loop_done h).bind_nil
    rw [keep, List.headD_cons, hsee]
    apply Proc.reads_pure
  · rw [hi]
    simp [Token.items]

theorem Delivers.eof
    {tr tr' : DeflatedTokenReader F} {blocks : List (List UInt8)} {bs : List UInt8}
    (h : Proc.Reads answer (step tr : Session Reply _) bs (.inr (none, tr'))) :
  Delivers answer tr blocks bs []
  := by
  intro acc
  use acc
  rw [List.append_nil]
  refine ⟨?_, rfl⟩
  apply Proc.reads_loop_done
  apply (Proc.reads_loop_done h).bind_nil
  apply Proc.reads_pure

/-! ### The bytes of a block -/

variable {L : F.Laws}

theorem inflateStep_eq
    {d : F.Decompress} {x : List UInt8} {flush : FlushDecompress} {r : FlateStep F.Decompress}
    (h : F.decompress d x dbufLen flush = .ok r) :
  inflateStep F d x flush = .ok r
  := by
  rw [inflateStep, h]
  rfl

theorem seeChunk_eq
    {d : F.Decompress} {z chunk p q : List UInt8} (h : L.Fed d z p) (hne : chunk ≠ [])
    (hq : L.plain (z ++ chunk) = some q) (hlen : q.length < p.length + dbufLen) :
  ∃ d', seeChunk F d chunk = .ok d' ∧ L.Fed d' (z ++ chunk) q
  := by
  obtain ⟨r, hr, hc, -, hfed⟩ := L.decompress_all dbufLen .sync h hq hlen
  have hpos : 0 < chunk.length := List.length_pos_iff.mpr hne
  use r.state
  refine ⟨?_, hfed⟩
  rw [seeChunk, dif_neg hne, inflateStep_eq hr, ok_bind, dif_neg (by omega), hc,
    List.drop_length, seeChunk, dif_pos rfl]
  rfl

/-- The bytes of a block extend what the inflate stream has given. -/
theorem seeBytes_eq
    {d : F.Decompress} {hist : List UInt8} (h : L.Synced d hist) (bytes : List UInt8) :
  ∃ d', seeBytes F d bytes = .ok d' ∧ L.Synced d' (hist ++ bytes)
  := by
  induction hn : bytes.length using Nat.strong_induction_on generalizing d hist bytes with
  | h n ih =>
      by_cases he : bytes = []
      · use d
        rw [seeBytes, dif_pos he, he, List.append_nil]
        apply And.intro rfl h
      · obtain ⟨z, hfed, hplain, hbound⟩ := h
        have hpos : 0 < bytes.length := List.length_pos_iff.mpr he
        have hlen : (bytes.take (min bytes.length 65535)).length = min bytes.length 65535 := by
          rw [List.length_take]
          omega
        have hne : bytes.take (min bytes.length 65535) ≠ [] := by
          rw [← List.length_pos_iff, hlen]
          omega
        -- the header of a stored block, and then its bytes
        obtain ⟨r, hr, hc, -, hfed'⟩ := L.decompress_all dbufLen .sync hfed
          (L.stored_header hbound hplain (by omega : min bytes.length 65535 ≤ 65535))
          (Nat.lt_add_of_pos_right (by decide))
        obtain ⟨hdata, hbound'⟩ := L.stored hbound hplain
          (by omega : (bytes.take (min bytes.length 65535)).length ≤ 65535)
        rw [hlen] at hdata hbound'
        obtain ⟨d₁, hd₁, hfed₁⟩ := seeChunk_eq hfed' hne hdata (by
          rw [List.length_append, hlen, dbufLen]
          omega)
        have hshort : (bytes.drop (min bytes.length 65535)).length < n := by
          rw [List.length_drop]
          omega
        obtain ⟨d₂, hd₂, hsync⟩ := ih _ hshort ⟨_, hfed₁, hdata, hbound'⟩ _ rfl
        use d₂
        rw [List.append_assoc, List.take_append_drop] at hsync
        refine ⟨?_, hsync⟩
        rw [seeBytes, dif_neg he]
        dsimp only
        rw [inflateStep_eq hr, ok_bind, if_neg (not_not.mpr (hc.trans rfl : r.consumed = 5)), hd₁,
          ok_bind, hd₂]

theorem seeBlock_eq
    {tr : DeflatedTokenReader F} {hist : List UInt8} (h : L.Synced tr.inflate hist)
    (bytes : List UInt8) :
  ∃ d, tr.seeBlock bytes = .ok { tr with inflate := d } ∧ L.Synced d (hist ++ bytes)
  := by
  obtain ⟨d, hd, hsync⟩ := seeBytes_eq h bytes
  use d
  refine ⟨?_, hsync⟩
  rw [seeBlock, hd]
  rfl

/-- A block is delivered, and the caller shows its bytes. -/
theorem Delivers.seen
    {tr tr' : DeflatedTokenReader F} {bytes hist : List UInt8} {blocks : List (List UInt8)}
    {idx : ℤ} {bs cs : List UInt8} {its : List (UInt8 ⊕ ℤ)}
    (h : Proc.Reads answer (step tr : Session Reply _) bs (.inr (some (.blockMatch idx), tr')))
    (hsync : L.Synced tr'.inflate hist)
    (hd : ∀ d, L.Synced d (hist ++ bytes) →
      Delivers answer { tr' with inflate := d } blocks cs its) :
  Delivers answer tr (bytes :: blocks) (bs ++ cs) (.inr idx :: its)
  := by
  obtain ⟨d, hsee, hsync'⟩ := seeBlock_eq hsync bytes
  apply Delivers.blockMatch h hsee (hd d hsync')

/-! ### Runs -/

/-- The reader after the flag of a run: the first block has been delivered. -/
def entered (tr : DeflatedTokenReader F) (run : RunState) : DeflatedTokenReader F :=
  if run.lastToken = run.runStart then
    { tr with rxToken := run.runStart }
  else
    { tr with rxToken := run.runStart, rxRun := run.lastToken - run.runStart, state := .running }

/-- The parts of a flag with a relative index. -/
theorem relative_flag
    (base : UInt8) (hbase : base = tokenRel ∨ base = tokenrunRel) {r : ℤ} (h₁ : 0 ≤ r)
    (h₂ : r ≤ 63) :
  base + UInt8.ofNat r.toNat ≠ endFlag ∧
  (base + UInt8.ofNat r.toNat) &&& 0xC0 ≠ deflatedData ∧
  (base + UInt8.ofNat r.toNat) &&& tokenRel ≠ 0 ∧
  (((base + UInt8.ofNat r.toNat) &&& 0x3f).toNat : ℤ) = r ∧
  (((base + UInt8.ofNat r.toNat) >>> 6) &&& 1 = 0 ↔ base = tokenRel)
  := by
  have key : ∀ b ∈ [tokenRel, tokenrunRel], ∀ n : Fin 64, b + UInt8.ofNat n ≠ endFlag ∧
      (b + UInt8.ofNat n) &&& 0xC0 ≠ deflatedData ∧ (b + UInt8.ofNat n) &&& tokenRel ≠ 0 ∧
      ((b + UInt8.ofNat n) &&& 0x3f).toNat = n.val ∧
      (((b + UInt8.ofNat n) >>> 6) &&& 1 = 0 ↔ b = tokenRel) := by
    decide +kernel
  obtain ⟨n, rfl⟩ := Int.eq_ofNat_of_zero_le h₁
  obtain ⟨h0, hc, hr, hn, hf⟩ := key base (by simpa using hbase) ⟨n, by omega⟩
  refine ⟨h0, hc, hr, ?_, hf⟩
  rw [Int.toNat_natCast]
  exact_mod_cast hn

theorem reads_decodeFlag
    (answer : H → (x : X) → Option (Reply x × H)) {run : RunState} (h : run.Valid) :
  ∃ flag tail, run.bytes = flag :: tail ∧ flag ≠ endFlag ∧ flag &&& 0xC0 ≠ deflatedData ∧
    ∀ tr : DeflatedTokenReader F, tr.rxToken = run.lastRunEnd →
      Proc.Reads answer (decodeFlag tr flag : Session Reply _) tail
        (some (.blockMatch run.runStart), tr.entered run)
  := by
  obtain ⟨h1, h2, h3, h4, h5, h6⟩ := h
  have hr : wrapI32 (run.runStart - run.lastRunEnd) = run.runStart - run.lastRunEnd :=
    wrapI32_of_isI32 ⟨by omega, by omega⟩
  have hn : wrapI32 (run.lastToken - run.runStart) = run.lastToken - run.runStart :=
    wrapI32_of_isI32 ⟨by omega, by omega⟩
  have hcount : (ofLeBytes (leBytes 2 (run.lastToken - run.runStart)) : ℤ) =
      run.lastToken - run.runStart := by
    rw [ofLeBytes_leBytes]
    omega
  -- the end of the flag: the count, when there is one
  have htail : ∀ (f : UInt8) (tr : DeflatedTokenReader F),
      (f &&& 1 = 0 ↔ run.lastToken - run.runStart = 0) →
      Proc.Reads answer
        (if f &&& 1 ≠ 0 then do
          let bb ← readBytes 2
          pure (some (.blockMatch run.runStart),
            { tr with rxToken := run.runStart, rxRun := ofLeBytes bb, state := .running })
        else
          pure (some (.blockMatch run.runStart), { tr with rxToken := run.runStart }) :
          Session Reply (Option Token × DeflatedTokenReader F))
        (if run.lastToken - run.runStart = 0 then [] else
          leBytes 2 (run.lastToken - run.runStart))
        (some (.blockMatch run.runStart), tr.entered run) := by
    intro f tr hf
    by_cases hz : run.lastToken - run.runStart = 0
    · rw [if_neg (not_not.mpr (hf.mpr hz)), if_pos hz, entered, if_pos (by omega)]
      apply Proc.reads_pure
    · have hread : Proc.Reads answer (readBytes 2 : Session Reply (List UInt8))
          (leBytes 2 (run.lastToken - run.runStart)) (leBytes 2 (run.lastToken - run.runStart)) :=
        reads_readBytes _ (length_leBytes _ _)
      have h := hread.map fun bb =>
          (some (Token.blockMatch run.runStart), ({ tr with
            rxToken := run.runStart, rxRun := ofLeBytes bb, state := .running } :
              DeflatedTokenReader F))
      rw [if_pos (mt hf.mp hz), if_neg hz, entered, if_neg (by omega)]
      rw [hcount] at h
      apply h
  unfold RunState.bytes
  simp only [hr, hn]
  by_cases hrel : 0 ≤ run.runStart - run.lastRunEnd ∧ run.runStart - run.lastRunEnd ≤ 63
  · have hbase : (if run.lastToken - run.runStart = 0 then tokenRel else tokenrunRel) = tokenRel ∨
        (if run.lastToken - run.runStart = 0 then tokenRel else tokenrunRel) = tokenrunRel := by
      split
      · apply Or.inl rfl
      · apply Or.inr rfl
    obtain ⟨h0, hc, hb, hv, hf⟩ := relative_flag _ hbase hrel.1 hrel.2
    rw [if_pos hrel]
    refine ⟨_, _, rfl, h0, hc, ?_⟩
    intro tr htr
    have hidx : wrapI32 (tr.rxToken + (run.runStart - run.lastRunEnd)) = run.runStart := by
      rw [htr]
      unfold wrapI32
      omega
    unfold decodeFlag
    rw [if_neg h0]
    dsimp only
    rw [if_pos hb, hv, hidx]
    apply htail
    rw [hf]
    split
    · apply iff_of_true rfl ‹_›
    · apply iff_of_false (by decide) ‹_›
  · have habs : ∀ base : UInt8, base = tokenLong ∨ base = tokenrunLong →
        base ≠ endFlag ∧ base &&& 0xC0 ≠ deflatedData ∧ base &&& tokenRel = 0 ∧
        (base &&& 1 = 0 ↔ base = tokenLong) := by
      rintro base (rfl | rfl) <;> decide
    have hbase : (if run.lastToken - run.runStart = 0 then tokenLong else tokenrunLong) =
        tokenLong ∨
        (if run.lastToken - run.runStart = 0 then tokenLong else tokenrunLong) =
          tokenrunLong := by
      split
      · apply Or.inl rfl
      · apply Or.inr rfl
    obtain ⟨h0, hc, hb, hf⟩ := habs _ hbase
    rw [if_neg hrel]
    refine ⟨_, _, rfl, h0, hc, ?_⟩
    intro tr htr
    unfold decodeFlag
    rw [if_neg h0]
    dsimp only
    rw [if_neg (not_not.mpr hb)]
    apply (reads_readInt ⟨by omega, by omega⟩).bind
    rw [if_neg (by omega)]
    apply htail
    rw [hf]
    split
    · apply iff_of_true rfl ‹_›
    · apply iff_of_false (by decide) ‹_›

/-- The reader waits for a flag, or has it already; it has delivered everything up to the
block `last`, and its inflate stream has given `hist`. -/
structure Ready (L : F.Laws) (tr : DeflatedTokenReader F) (last : ℤ) (hist : List UInt8) :
    Prop where
  state_eq : tr.state = .idle
  rxToken_eq : tr.rxToken = last
  synced : L.Synced tr.inflate hist

/-- A reader that waits for a flag acts upon the next one. -/
theorem consumes_step
    (answer : H → (x : X) → Option (Reply x × H)) {tr : DeflatedTokenReader F}
    (hs : tr.state = .idle ∨ tr.state = .inflated) {flag : UInt8} {bs tail : List UInt8}
    (hbs : tr.savedFlag.toList ++ bs = flag :: tail) :
  ∃ pre, bs = pre ++ tail ∧ Proc.Consumes answer (step tr : Session Reply _) pre
    (handleFlag { tr with savedFlag := none } flag)
  := by
  obtain ⟨inflate, state, rxToken, rxRun, saved, cbuf⟩ := tr
  cases saved with
  | some f =>
      obtain ⟨rfl, rfl⟩ := List.cons.inj hbs
      use [], rfl
      rcases hs with rfl | rfl <;> apply Proc.Consumes.refl
  | none =>
      use [flag], hbs
      rcases hs with rfl | rfl <;> apply (reads_readByte flag).consumes

theorem reads_handleFlag
    {tr : DeflatedTokenReader F} (hs : tr.state = .idle) {flag : UInt8}
    (hc : flag &&& 0xC0 ≠ deflatedData) {bs : List UInt8}
    {res : Option Token × DeflatedTokenReader F}
    (h : Proc.Reads answer (decodeFlag tr flag : Session Reply _) bs res) :
  Proc.Reads answer (handleFlag tr flag : Session Reply _) bs (.inr res)
  := by
  unfold handleFlag
  rw [if_neg hc, hs, if_neg (by decide)]
  apply h.map

theorem reads_step_running
    {n : ℕ} (hn : n < 65535) {tr : DeflatedTokenReader F} (hs : tr.state = .running)
    (hrun : tr.rxRun = n + 1) (h₁ : 0 ≤ tr.rxToken) (h₂ : tr.rxToken + 1 < 2147483647) :
  Proc.Reads answer (step tr : Session Reply _) []
    (.inr (some (.blockMatch (tr.rxToken + 1)),
      { tr with rxToken := tr.rxToken + 1, rxRun := n,
                state := if n = 0 then .idle else .running }))
  := by
  have htoken : wrapI32 (tr.rxToken + 1) = tr.rxToken + 1 :=
    wrapI32_of_isI32 ⟨by omega, by omega⟩
  have hleft : wrapI32 (tr.rxRun - 1) = n := by
    unfold wrapI32
    omega
  unfold step
  rw [hs]
  dsimp only
  rw [htoken, hleft]
  simp only [Int.natCast_eq_zero]
  apply Proc.reads_pure

/-- In a run the blocks are delivered one after the other. -/
theorem delivers_running
    {n : ℕ} (hn : n < 65535) {tr : DeflatedTokenReader F} (hs : tr.state = .running)
    (hrun : tr.rxRun = n + 1) (h₁ : 0 ≤ tr.rxToken) (h₂ : tr.rxToken + (n + 1) < 2147483647)
    (hsaved : tr.savedFlag = none) {hist : List UInt8} (hsync : L.Synced tr.inflate hist)
    {pend blocks : List (List UInt8)} (hpend : pend.length = n + 1) {bs : List UInt8}
    {its : List (UInt8 ⊕ ℤ)}
    (hk : ∀ tr' : DeflatedTokenReader F,
      Ready L tr' (tr.rxToken + (n + 1)) (hist ++ pend.flatten) → tr'.savedFlag = none →
      Delivers answer tr' blocks bs its) :
  Delivers answer tr (pend ++ blocks) bs
    ((blocksFrom (tr.rxToken + 1) (n + 1)).map .inr ++ its)
  := by
  induction n generalizing tr hist pend with
  | zero =>
      obtain ⟨bytes, rfl⟩ := List.length_eq_one_iff.mp hpend
      apply Delivers.seen (reads_step_running hn hs hrun h₁ (by omega)) hsync
      intro d hd
      apply hk
      · apply Ready.mk rfl
        · simp
        · simpa using hd
      · apply hsaved
  | succ n ih =>
      obtain ⟨bytes, pend, rfl⟩ := List.exists_cons_of_length_eq_add_one hpend
      apply Delivers.seen (reads_step_running hn hs hrun h₁ (by omega)) hsync
      intro d hd
      apply ih (by omega) rfl
      · simp
      · dsimp only
        omega
      · dsimp only
        omega
      · apply hsaved
      · apply hd
      · simpa using hpend
      · intro tr' hready
        apply hk
        convert hready using 1
        · dsimp only
          omega
        · simp

/-- A run delivers its blocks. -/
theorem delivers_run
    {run : RunState} (h : run.Valid) {tr : DeflatedTokenReader F} {hist : List UInt8}
    (hready : Ready L tr run.lastRunEnd hist) {bs wire : List UInt8}
    (hbs : tr.savedFlag.toList ++ bs = run.bytes ++ wire) {pend blocks : List (List UInt8)}
    (hpend : pend.length = run.count) {its : List (UInt8 ⊕ ℤ)}
    (hk : ∀ tr' : DeflatedTokenReader F, Ready L tr' run.lastToken (hist ++ pend.flatten) →
      tr'.savedFlag = none → Delivers answer tr' blocks wire its) :
  Delivers answer tr (pend ++ blocks) bs (run.blocks.map .inr ++ its)
  := by
  obtain ⟨flag, tail, hbytes, -, hc, hdecode⟩ := reads_decodeFlag (F := F) answer h
  rw [hbytes, List.cons_append] at hbs
  have hflag : Proc.Reads answer
      (handleFlag { tr with savedFlag := none } flag : Session Reply _) tail
      (.inr (some (.blockMatch run.runStart), entered { tr with savedFlag := none } run)) := by
    apply reads_handleFlag
    · apply hready.state_eq
    · apply hc
    · apply hdecode
      apply hready.rxToken_eq
  obtain ⟨pre, rfl, hstep⟩ := consumes_step answer (.inl hready.state_eq) hbs
  rw [← List.append_assoc]
  have hcount : (run.count : ℤ) = run.lastToken - run.runStart + 1 := by
    unfold RunState.count
    have := h.start_le
    omega
  obtain ⟨n, hn⟩ : ∃ n, run.count = n + 1 := ⟨run.count - 1, by have := h.start_le; omega⟩
  rw [RunState.blocks, hn]
  rw [hn] at hpend
  obtain ⟨bytes, pend, rfl⟩ := List.exists_cons_of_length_eq_add_one hpend
  have hsync : L.Synced (entered { tr with savedFlag := none } run).inflate hist := by
    unfold entered
    split <;> apply hready.synced
  apply Delivers.seen (hstep.reads hflag) hsync
  intro d hd
  cases n with
  | zero =>
      have he : run.lastToken = run.runStart := by omega
      cases List.length_eq_zero_iff.mp (Nat.succ.inj hpend)
      rw [entered, if_pos he]
      apply hk
      · constructor
        · apply hready.state_eq
        · apply he.symm
        · simpa using hd
      · rfl
  | succ n =>
      have hne : ¬ run.lastToken = run.runStart := by omega
      rw [entered, if_neg hne]
      have hshort := h.short
      have hnonneg := h.start_nonneg
      have hlt := h.last_lt
      apply delivers_running (by omega : n < 65535) rfl
      · dsimp only
        omega
      · apply h.start_nonneg
      · dsimp only
        omega
      · rfl
      · apply hd
      · simpa using hpend
      · intro tr' hready'
        apply hk
        convert hready' using 1
        · dsimp only
          omega
        · simp

/-! ### Literal bytes -/

/-- The parts of the flag of a frame. -/
theorem frame_flag
    {n : ℕ} (hn : n ≤ maxDataCount) :
  (deflatedData + UInt8.ofNat (n / 256)) &&& 0xC0 = deflatedData ∧
    ((deflatedData + UInt8.ofNat (n / 256)) &&& 0x3f).toNat = n / 256
  := by
  have key : ∀ m : Fin 64, (deflatedData + UInt8.ofNat m) &&& 0xC0 = deflatedData ∧
      ((deflatedData + UInt8.ofNat m) &&& 0x3f).toNat = m.val := by
    decide +kernel
  have hhi : n / 256 < 64 := by
    unfold maxDataCount at hn
    omega
  apply key ⟨n / 256, hhi⟩

theorem reads_handleFlag_frame
    {n : ℕ} (hn : n ≤ maxDataCount) {chunk : List UInt8} (hlen : chunk.length = n)
    (tr : DeflatedTokenReader F) :
  Proc.Reads answer
    (handleFlag tr (deflatedData + UInt8.ofNat (n / 256)) : Session Reply _)
    (UInt8.ofNat (n % 256) :: chunk) (.inl { tr with cbuf := chunk, state := .inflating })
  := by
  obtain ⟨hc, hv⟩ := frame_flag hn
  have hval : ofLeBytes [UInt8.ofNat (n % 256),
      (deflatedData + UInt8.ofNat (n / 256)) &&& 0x3f] = n := by
    simp only [ofLeBytes]
    rw [hv, UInt8.toNat_ofNat_of_lt' (by simp only [UInt8.size]; omega)]
    omega
  unfold handleFlag
  rw [if_pos hc]
  apply reads_readByte_bind
  rw [hval]
  apply (reads_readBytes chunk hlen).map

/-- The first frame of compressed data, and the frames after it. -/
theorem frameBytes_cons
    {out : List UInt8} (h : out ≠ []) :
  ∃ n, n ≤ maxDataCount ∧ 0 < n ∧ (out.take n).length = n ∧
    frameBytes out = (deflatedData + UInt8.ofNat (n / 256)) ::
      ((UInt8.ofNat (n % 256) :: out.take n) ++ frameBytes (out.drop n))
  := by
  have hpos : 0 < out.length := List.length_pos_iff.mpr h
  use min out.length maxDataCount
  refine ⟨by omega, by unfold maxDataCount; omega, by rw [List.length_take]; omega, ?_⟩
  rw [frameBytes, if_neg h]
  simp

/-- What the deflate stream gives when the literal bytes before a flag have all come, and
what is left to do then. -/
structure EndsLiteral (L : F.Laws) (stream q : List UInt8) : Prop where
  plain_eq : L.plain stream = some q
  trailer : L.plain (stream ++ syncTrailer) = some q
  boundary : L.Boundary (stream ++ syncTrailer)

/-- When all compressed data have been read, the reader delivers what the inflate stream
still gives and then acts upon the flag. -/
theorem delivers_inflated
    {stream q : List UInt8} (h : EndsLiteral L stream q) {flag : UInt8}
    (hc : flag &&& 0xC0 ≠ deflatedData) {last : ℤ} {blocks : List (List UInt8)}
    {wire : List UInt8} {its : List (UInt8 ⊕ ℤ)}
    (hk : ∀ tr' : DeflatedTokenReader F, Ready L tr' last q → tr'.savedFlag = some flag →
      Delivers answer tr' blocks wire its)
    {tr : DeflatedTokenReader F} (hs : tr.state = .inflated) (hlast : tr.rxToken = last)
    {bs p : List UInt8} (hbs : tr.savedFlag.toList ++ bs = flag :: wire)
    (hfed : L.Fed tr.inflate stream p) :
  Delivers answer tr blocks bs ((q.drop p.length).map .inl ++ its)
  := by
  induction hm : q.length - p.length using Nat.strong_induction_on generalizing tr bs p with
  | h m ih =>
      have hplain : L.plain (stream ++ []) = some q := by
        rw [List.append_nil]
        apply h.plain_eq
      obtain ⟨r, hr, -, -, hfed', hend⟩ := L.decompress dbufLen .sync hfed hplain
      rw [List.take_nil, List.append_nil] at hfed'
      have hpre : p ++ r.out <+: q := by
        obtain ⟨q', hq', hpre⟩ := L.fed_plain hfed'
        rw [h.plain_eq] at hq'
        cases hq'
        apply hpre
      obtain ⟨pre, rfl, hstep⟩ := consumes_step answer (.inr hs) hbs
      by_cases ho : r.out = []
      · -- nothing is left, the end of the flush completes the literal bytes
        have hp : p = q := by
          rcases hend with hfull | ⟨-, hq⟩
          · rw [ho] at hfull
            cases hfull
          · rw [ho, List.append_nil] at hq
            apply hq
        subst hp
        rw [ho, List.append_nil] at hfed'
        obtain ⟨r', hr', hc', -, hfed''⟩ := L.decompress_all dbufLen .sync hfed'
          h.trailer (Nat.lt_add_of_pos_right (by decide))
        rw [List.drop_length]
        have hidle := hk { tr with inflate := r'.state, cbuf := syncTrailer, state := .idle,
                                   savedFlag := some flag }
          ⟨rfl, hlast, _, hfed'', h.trailer, h.boundary⟩ rfl
        have heq : handleFlag { tr with savedFlag := none } flag =
            (step { tr with inflate := r'.state, cbuf := syncTrailer, state := .idle,
                            savedFlag := some flag } : Session Reply _) := by
          unfold step handleFlag
          dsimp only
          rw [if_neg hc, if_neg hc, if_pos hs, if_neg (by decide), lift_bind (inflateStep_eq hr),
            if_neg (not_not.mpr ho), lift_bind (inflateStep_eq hr'),
            if_neg (not_not.mpr (hc'.trans rfl : r'.consumed = 4))]
        apply Delivers.of_step _ hidle
        rw [← heq]
        apply hstep
      · -- some more literal bytes, and the flag is kept
        have hround : Proc.Reads answer
            (handleFlag { tr with savedFlag := none } flag : Session Reply _) []
            (.inr (some (.literal r.out), { tr with inflate := r.state,
                                                    savedFlag := some flag })) := by
          unfold handleFlag
          rw [if_neg hc, if_pos hs, lift_bind (inflateStep_eq hr), if_pos ho]
          apply Proc.reads_pure
        have hpos : 0 < r.out.length := List.length_pos_iff.mpr ho
        have hlen : p.length + r.out.length ≤ q.length := by
          rw [← List.length_append]
          apply hpre.length_le
        have hitems : q.drop p.length = r.out ++ q.drop (p ++ r.out).length := by
          obtain ⟨rest, rfl⟩ := hpre
          rw [List.drop_left, List.append_assoc, List.drop_left]
        rw [hitems, List.map_append, List.append_assoc, ← List.append_nil pre]
        apply Delivers.literal (hstep.reads hround)
        apply ih (q.length - (p ++ r.out).length)
        · rw [List.length_append]
          omega
        · apply hs
        · apply hlast
        · rfl
        · apply hfed'
        · rfl

/-- The reader is inside literal bytes: it has delivered `p`, and of the stream only the
frames `fs` are still to be read. -/
structure InLiteral (L : F.Laws) (tr : DeflatedTokenReader F) (last : ℤ)
    (stream fs p : List UInt8) : Prop where
  savedFlag_eq : tr.savedFlag = none
  rxToken_eq : tr.rxToken = last
  fed : ∃ z unread, (tr.state = .inflating ∧ tr.cbuf = unread ∨
      tr.state = .inflated ∧ unread = []) ∧ z ++ unread ++ fs = stream ∧ L.Fed tr.inflate z p

/-- From frames of compressed data on, the reader delivers what their stream gives and then
acts upon the flag after them. -/
theorem delivers_frames
    {stream q : List UInt8} (h : EndsLiteral L stream q) {flag : UInt8}
    (hc : flag &&& 0xC0 ≠ deflatedData) {last : ℤ} {blocks : List (List UInt8)}
    {wire : List UInt8} {its : List (UInt8 ⊕ ℤ)}
    (hk : ∀ tr' : DeflatedTokenReader F, Ready L tr' last q → tr'.savedFlag = some flag →
      Delivers answer tr' blocks wire its)
    {tr : DeflatedTokenReader F} {fs p : List UInt8} (htr : InLiteral L tr last stream fs p) :
  Delivers answer tr blocks (frameBytes fs ++ flag :: wire) ((q.drop p.length).map .inl ++ its)
  := by
  -- frames are read, read frames are inflated, and inflated bytes are delivered
  induction hm : 2 * fs.length + (if tr.state = .inflating then 1 else 0) +
      (q.length - p.length) using Nat.strong_induction_on generalizing tr p fs with
  | h m ih =>
      obtain ⟨hsaved, hlast, z, unread, hs, hz, hfed⟩ := htr
      rcases hs with ⟨hs, rfl⟩ | ⟨hs, rfl⟩
      · obtain ⟨q', hq', hpre'⟩ : ∃ q', L.plain (z ++ tr.cbuf) = some q' ∧ q' <+: q := by
          apply L.plain_append
          rw [hz]
          apply h.plain_eq
        obtain ⟨r, hr, hle, -, hfed', hend⟩ := L.decompress dbufLen .none hfed hq'
        have hpre : p ++ r.out <+: q := by
          obtain ⟨q₁, hq₁, hpre⟩ := L.fed_plain hfed'
          have happ : L.plain (z ++ tr.cbuf.take r.consumed ++ tr.cbuf.drop r.consumed) =
              some q' := by
            rw [List.append_assoc, List.take_append_drop]
            apply hq'
          obtain ⟨q₂, hq₂, hpre₂⟩ := L.plain_append happ
          rw [hq₁] at hq₂
          cases hq₂
          apply hpre.trans (hpre₂.trans hpre')
        have hz' : z ++ tr.cbuf.take r.consumed ++ tr.cbuf.drop r.consumed ++ fs = stream := by
          rw [List.append_assoc z, List.take_append_drop]
          apply hz
        have hitems : q.drop p.length = r.out ++ q.drop (p ++ r.out).length := by
          obtain ⟨rest, rfl⟩ := hpre
          rw [List.drop_left, List.append_assoc, List.drop_left]
        have hlen : p.length + r.out.length ≤ q.length := by
          rw [← List.length_append]
          apply hpre.length_le
        by_cases ho : r.out = []
        · -- all has been inflated
          have hdone : tr.cbuf.drop r.consumed = [] := by
            rcases hend with hfull | ⟨hall, -⟩
            · rw [ho] at hfull
              cases hfull
            · rw [hall, List.drop_length]
          have hround : Proc.Reads answer (step tr : Session Reply _) []
              (.inl { tr with inflate := r.state, cbuf := [], state := .inflated }) := by
            unfold step
            rw [hs]
            dsimp only
            rw [lift_bind (inflateStep_eq hr), if_neg (not_not.mpr ho), hdone, if_pos rfl]
            apply Proc.reads_pure
          rw [hdone] at hz'
          rw [ho, List.append_nil] at hfed'
          rw [hitems, ho, List.nil_append, List.append_nil,
            ← List.nil_append (frameBytes fs ++ flag :: wire)]
          apply Delivers.again hround
          apply ih _ _ _ rfl
          · rw [if_pos hs] at hm
            simp only [reduceCtorEq, if_false]
            omega
          · refine ⟨hsaved, hlast, _, [], .inr ⟨rfl, rfl⟩, hz', hfed'⟩
        · have hround : Proc.Reads answer (step tr : Session Reply _) []
              (.inr (some (.literal r.out),
                { tr with inflate := r.state, cbuf := tr.cbuf.drop r.consumed,
                          state := if tr.cbuf.drop r.consumed = [] then .inflated
                            else .inflating })) := by
            unfold step
            rw [hs]
            dsimp only
            rw [lift_bind (inflateStep_eq hr), if_pos ho]
            apply Proc.reads_pure
          have hpos : 0 < r.out.length := List.length_pos_iff.mpr ho
          rw [hitems, List.map_append, List.append_assoc,
            ← List.nil_append (frameBytes fs ++ flag :: wire)]
          apply Delivers.literal hround
          apply ih _ _ _ rfl
          · rw [if_pos hs] at hm
            have hle : ∀ s : RxState, (if s = .inflating then 1 else 0) ≤ 1 := by
              intro s
              split <;> omega
            have := hle (if tr.cbuf.drop r.consumed = [] then .inflated else .inflating)
            rw [List.length_append]
            dsimp only
            omega
          · refine ⟨hsaved, hlast, _, _, ?_, hz', hfed'⟩
            by_cases hdone : tr.cbuf.drop r.consumed = []
            · apply Or.inr ⟨if_pos hdone, hdone⟩
            · apply Or.inl ⟨if_neg hdone, rfl⟩
      · by_cases hf : fs = []
        · subst hf
          rw [frameBytes, if_pos rfl, List.nil_append]
          rw [List.append_nil, List.append_nil] at hz
          subst hz
          apply delivers_inflated h hc hk hs hlast _ hfed
          rw [hsaved]
          rfl
        · -- the next frame is read
          obtain ⟨n, hn, hpos, hlen, hframe⟩ := frameBytes_cons hf
          obtain ⟨pre, hpre, hstep⟩ := consumes_step answer (.inr hs)
            (by rw [hsaved, hframe]; rfl : tr.savedFlag.toList ++ frameBytes fs = _)
          have hround := hstep.reads (reads_handleFlag_frame hn hlen { tr with savedFlag := none })
          rw [hpre, List.append_assoc, List.append_assoc, ← List.append_assoc pre]
          apply Delivers.again hround
          rw [List.append_nil] at hz
          apply ih _ _ _ rfl
          · rw [hs] at hm
            simp only [reduceCtorEq, if_false, if_true, List.length_drop] at hm ⊢
            rw [List.length_take] at hlen
            omega
          · refine ⟨rfl, hlast, z, _, .inl ⟨rfl, rfl⟩, ?_, hfed⟩
            rw [List.append_assoc, List.take_append_drop]
            apply hz

/-! ### Pieces -/

/-- The next piece on the wire starts with a flag that is not one of compressed data. -/
def Flagged : List Piece → Prop
  | .run run :: _ => run.Valid
  | .block _ :: ps => Flagged ps
  | .eof :: _ => True
  | _ => False

/-- The reader gets the given bytes and blocks from the pieces, when the last block it got
was `last` and the next `n` blocks have gone through the writer's deflate stream. Literal
bytes come only when there are no such blocks. -/
inductive Readable : ℤ → ℕ → List Piece → List (UInt8 ⊕ ℤ) → Prop where
  | eof {last : ℤ} : Readable last 0 [.eof] []
  | literal {last : ℤ} {data : List UInt8} {ps : List Piece} {its : List (UInt8 ⊕ ℤ)}
      (hf : Flagged ps) (h : Readable last 0 ps its) :
      Readable last 0 (.literal data :: ps) (data.map .inl ++ its)
  | block {last : ℤ} {n : ℕ} {bytes : List UInt8} {ps : List Piece} {its : List (UInt8 ⊕ ℤ)}
      (h : Readable last (n + 1) ps its) : Readable last n (.block bytes :: ps) its
  | run {n : ℕ} {run : RunState} {ps : List Piece} {its : List (UInt8 ⊕ ℤ)} (hv : run.Valid)
      (h : Readable run.lastToken n ps its) :
      Readable run.lastRunEnd (run.count + n) (.run run :: ps) (run.blocks.map .inr ++ its)

theorem Flagged.wire
    {hist wire : List UInt8} {ps : List Piece} (hf : Flagged ps) (h : Wire L hist ps wire) :
  ∃ flag rest, wire = flag :: rest ∧ flag &&& 0xC0 ≠ deflatedData
  := by
  induction h with
  | nil => cases hf
  | literal => cases hf
  | @run hist run ps wire h =>
      obtain ⟨flag, tail, hbytes, -, hc, -⟩ := reads_decodeFlag (F := F)
        (fun _ _ => none : Unit → Unit → Option (Unit × Unit)) hf
      rw [hbytes]
      use flag, tail ++ wire, rfl, hc
  | block h ih => apply ih hf
  | @eof hist ps wire h =>
      use endFlag, wire, rfl
      decide

theorem reads_decodeFlag_eof
    (tr : DeflatedTokenReader F) :
  Proc.Reads answer (decodeFlag tr endFlag : Session Reply _) [] (none, { tr with state := .init })
  := by
  unfold decodeFlag
  rw [if_pos rfl]
  apply Proc.reads_pure

/-- Frames of compressed literal bytes are delivered. -/
theorem delivers_literal
    {hist data body : List UInt8} (hne : data ≠ [])
    (hseg : IsSegment L.plain L.Boundary hist data body) {flag : UInt8}
    (hc : flag &&& 0xC0 ≠ deflatedData) {last : ℤ} {blocks : List (List UInt8)}
    {wire bs : List UInt8} {its : List (UInt8 ⊕ ℤ)}
    (hk : ∀ tr' : DeflatedTokenReader F, Ready L tr' last (hist ++ data) →
      tr'.savedFlag = some flag → Delivers answer tr' blocks wire its)
    {tr : DeflatedTokenReader F} (hready : Ready L tr last hist)
    (hbs : tr.savedFlag.toList ++ bs = frameBytes body ++ flag :: wire) :
  Delivers answer tr blocks bs (data.map .inl ++ its)
  := by
  obtain ⟨hs, hlast, z, hfed, hplain, hbound⟩ := hready
  obtain ⟨h₁, h₂, h₃⟩ := hseg z hbound hplain
  have hbody : body ≠ [] := by
    rintro rfl
    rw [List.append_nil, hplain, Option.some.injEq, List.self_eq_append_right] at h₁
    apply hne h₁
  obtain ⟨n, hn, hpos, hlen, hframe⟩ := frameBytes_cons hbody
  rw [hframe, List.cons_append] at hbs
  obtain ⟨pre, rfl, hstep⟩ := consumes_step answer (.inl hs) hbs
  have hround := hstep.reads (reads_handleFlag_frame hn hlen { tr with savedFlag := none })
  have hin : InLiteral L { tr with savedFlag := none, cbuf := body.take n, state := .inflating }
      last (z ++ body) (body.drop n) hist := by
    refine ⟨rfl, hlast, z, _, .inl ⟨rfl, rfl⟩, ?_, hfed⟩
    rw [List.append_assoc, List.take_append_drop]
  have hd := delivers_frames ⟨h₁, h₂, h₃⟩ hc hk hin
  rw [List.drop_left] at hd
  rw [List.append_assoc, ← List.append_assoc pre]
  apply Delivers.again hround hd

/-- Readable pieces are delivered. -/
theorem delivers_pieces
    {last : ℤ} {n : ℕ} {ps : List Piece} {its : List (UInt8 ⊕ ℤ)} (h : Readable last n ps its)
    {hist wire : List UInt8} (hw : Wire L hist ps wire) {tr : DeflatedTokenReader F}
    {given : List UInt8} (hready : Ready L tr last given) {pend : List (List UInt8)}
    (hpend : pend.length = n) (hhist : hist = given ++ pend.flatten) {bs : List UInt8}
    (hbs : tr.savedFlag.toList ++ bs = wire) :
  Delivers answer tr (pend ++ pieceBlocks ps) bs its
  := by
  induction h generalizing hist wire tr given pend bs with
  | eof =>
      cases hw with
      | eof hw =>
          obtain ⟨pre, rfl, hstep⟩ := consumes_step answer (.inl hready.state_eq) hbs
          cases hw
          have hend : Proc.Reads answer
              (handleFlag { tr with savedFlag := none } endFlag : Session Reply _) []
              (.inr (none, { tr with savedFlag := none, state := .init })) := by
            apply reads_handleFlag
            · apply hready.state_eq
            · decide
            · apply reads_decodeFlag_eof
          apply Delivers.eof (hstep.reads hend)
  | literal hf _ ih =>
      cases List.length_eq_zero_iff.mp hpend
      rw [List.flatten_nil, List.append_nil] at hhist
      subst hhist
      cases hw with
      | literal hne hseg hw =>
          obtain ⟨flag, rest, rfl, hc⟩ := hf.wire hw
          apply delivers_literal hne hseg hc _ hready hbs
          intro tr' hready' hsaved
          apply ih hw hready' rfl
          · simp
          · rw [hsaved]
            rfl
  | @block last n bytes ps its _ ih =>
      cases hw with
      | block hw =>
          rw [pieceBlocks, List.append_cons]
          apply ih hw hready _ _ hbs
          · rw [List.length_append, hpend, List.length_singleton]
          · rw [hhist]
            simp
  | @run n run ps its hv _ ih =>
      cases hw with
      | run hw =>
          rw [pieceBlocks, ← List.take_append_drop run.count pend, List.append_assoc]
          apply delivers_run hv hready hbs
          · rw [List.length_take]
            omega
          · intro tr' hready' hsaved
            apply ih hw hready'
            · rw [List.length_drop]
              omega
            · rw [List.append_assoc, ← List.flatten_append, List.take_append_drop]
              apply hhist
            · rw [hsaved]
              rfl

/-- A fresh reader delivers readable pieces. -/
theorem reads_readTokens
    (answer : H → (x : X) → Option (Reply x × H)) {ps : List Piece} {its : List (UInt8 ⊕ ℤ)}
    (h : Readable 0 0 ps its) {wire : List UInt8} (hw : Wire L [] ps wire) :
  ∃ toks, Proc.Reads answer (readTokens F (pieceBlocks ps) : Session Reply (List Token)) wire
    toks ∧ tokenItems toks = its
  := by
  have hstart : Proc.Reads answer (step (new F) : Session Reply _) []
      (.inl { new F with state := .idle, rxToken := 0 }) := by
    apply Proc.reads_pure
  have hready : Ready L { new F with state := .idle, rxToken := 0 } 0 [] :=
    ⟨rfl, rfl, L.synced_new⟩
  apply Delivers.again hstart _ []
  have hpieces : Delivers answer { new F with state := .idle, rxToken := 0 }
      ([] ++ pieceBlocks ps) wire its :=
    delivers_pieces h hw hready rfl rfl rfl
  apply hpieces

end DeflatedTokenReader
