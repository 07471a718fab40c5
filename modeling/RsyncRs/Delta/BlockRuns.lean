import Mathlib.Data.List.ReduceOption
import RsyncRs.Delta.DeflateReader
import RsyncRs.Delta.StoredFlate
import RsyncRs.Delta.TokenFrames

/-!
# Runs of blocks in a compressed stream

The reader gives out the blocks of a frame one by one, and then goes on to the next frame. A
reader that has nothing left of a run counts on below zero: a run that counts no further block is
never over.
-/

variable {X : Type} {Reply : X → Type} {H : Type}
  {answer : H → (x : X) → Option (Reply x × H)} {closed : Bool} {F : Flate}

/-! ### What a read has taken from the channel -/

theorem readByte_inv
    {w w' : Endpoint H UInt8} {b : UInt8}
    (h : Proc.Returns answer closed (readByte : Session Reply UInt8) w b w') :
  w.input = b :: w'.input
  := by
  have hsafe : Proc.Safe (Prog.Answers (Endpoint.answer answer closed)) (fun _ _ => True)
      (readByte : Session Reply UInt8) (fun b w' => w.input = b :: w'.input)
      (fun _ _ => True) w := by
    apply Proc.safe_read trivial
    · intro b w' hr
      cases hin : w.input with
      | nil =>
          simp only [Prog.Answers, Endpoint.answer, hin] at hr
          split at hr <;> cases hr
      | cons b' rest =>
          simp only [Prog.Answers, Endpoint.answer, hin] at hr
          cases hr
          rfl
    · intro w' _
      trivial
  apply hsafe.ends h

theorem readBytes_inv
    {w w' : Endpoint H UInt8} {n : ℕ} {bs : List UInt8}
    (h : Proc.Returns answer closed (readBytes n : Session Reply (List UInt8)) w bs w') :
  w.input = bs ++ w'.input ∧ bs.length = n
  := by
  unfold readBytes at h
  induction n generalizing w bs with
  | zero =>
      obtain ⟨rfl, rfl⟩ := h.pure_inv
      exact ⟨rfl, rfl⟩
  | succ n ih =>
      obtain ⟨b, w₁, hb, h⟩ := h.bind_inv
      obtain ⟨cs, w₂, hcs, h⟩ := h.bind_inv
      obtain ⟨rfl, rfl⟩ := h.pure_inv
      obtain ⟨hin, hlen⟩ := ih hcs
      rw [readByte_inv hb, hin, List.length_cons, hlen]
      exact ⟨rfl, rfl⟩

theorem lift_inv
    {α β : Type} {x : Except Error α} {f : α → Session Reply β} {w w' : Endpoint H UInt8} {b : β}
    (h : Proc.Returns answer closed ((liftM x : Session Reply α) >>= f) w b w') :
  ∃ a, x = .ok a ∧ Proc.Returns answer closed (f a) w b w'
  := by
  cases x with
  | ok a => exact ⟨a, rfl, h⟩
  | error e =>
      obtain ⟨hr, -⟩ := Prog.Ends.of_ret h
      cases hr

namespace DeflatedTokenReader

/-! ### Calls -/

/-- The caller reads tokens and shows the reader bytes of blocks, in whatever order. -/
inductive Calls (answer : H → (x : X) → Option (Reply x × H)) (closed : Bool) :
    DeflatedTokenReader F → Endpoint H UInt8 → List (Option Token) → DeflatedTokenReader F →
      Endpoint H UInt8 → Prop where
  | nil {tr : DeflatedTokenReader F} {w : Endpoint H UInt8} : Calls answer closed tr w [] tr w
  | read {tr tr₁ tr' : DeflatedTokenReader F} {w w₁ w' : Endpoint H UInt8} {tok : Option Token}
      {toks : List (Option Token)}
      (h : Proc.Returns answer closed (readToken tr : Session Reply _) w (tok, tr₁) w₁)
      (hrest : Calls answer closed tr₁ w₁ toks tr' w') :
      Calls answer closed tr w (tok :: toks) tr' w'
  | see {tr tr₁ tr' : DeflatedTokenReader F} {w w' : Endpoint H UInt8} {bytes : List UInt8}
      {toks : List (Option Token)} (h : tr.seeBlock bytes = .ok tr₁)
      (hrest : Calls answer closed tr₁ w toks tr' w') : Calls answer closed tr w toks tr' w'

/-! ### Where the reader stands -/

/-- The reader has taken the frames `fs` from the channel, and of them the blocks `pend` are still
to be given out. -/
inductive Stands (fs : List TokenFrame) : DeflatedTokenReader F → List ℤ → Prop where
  | init {tr : DeflatedTokenReader F} (hs : tr.state = .init) (hsaved : tr.savedFlag = none)
      (hlast : lastBlock fs = 0) : Stands fs tr []
  | idle {tr : DeflatedTokenReader F} (hs : tr.state = .idle) (hsaved : tr.savedFlag = none)
      (htoken : tr.rxToken = lastBlock fs) : Stands fs tr []
  | inflating {tr : DeflatedTokenReader F} (hs : tr.state = .inflating)
      (hsaved : tr.savedFlag = none) (htoken : tr.rxToken = lastBlock fs)
      (hdata : ∃ data, .deflated data ∈ fs) : Stands fs tr []
  | inflated {tr : DeflatedTokenReader F} (hs : tr.state = .inflated)
      (htoken : tr.rxToken = lastBlock fs) (hdata : ∃ data, .deflated data ∈ fs) : Stands fs tr []
  | running {tr : DeflatedTokenReader F} {n : ℕ} (hs : tr.state = .running)
      (hsaved : tr.savedFlag = none) (hrun : tr.rxRun = n + 1) (hn : n < 65536)
      (h0 : 0 ≤ tr.rxToken) (htoken : tr.rxToken + (n + 1) = lastBlock fs) :
      Stands fs tr ((List.range (n + 1)).map fun i : ℕ => tr.rxToken + 1 + i)

/-- From the start of the stream `bs` the reader has given out `toks`, and now stands before
`input`. -/
structure Given (bs : List UInt8) (toks : List (Option Token)) (tr : DeflatedTokenReader F)
    (input : List UInt8) (fs : List TokenFrame) (pre : List UInt8) (pend : List ℤ) : Prop where
  frames : IsFrames pre fs
  stream : bs = pre ++ (tr.savedFlag.toList ++ input)
  stands : Stands fs tr pend
  last_ge : 0 ≤ lastBlock fs
  last_lt : lastBlock fs < 2147483648
  nonneg : ∀ idx ∈ framesBlocks 0 fs, 0 ≤ idx
  blocks : blockIndices toks.reduceOption ++ pend = framesBlocks 0 fs
  literals : (∃ data, some (.literal data) ∈ toks) → ∃ data, .deflated data ∈ fs

theorem Given.sound
    {bs part rest : List UInt8} {toks : List (Option Token)} {tr : DeflatedTokenReader F}
    {fs : List TokenFrame} {f : TokenFrame} {pre : List UInt8}
    (hg : Given bs toks tr (part ++ rest) fs pre []) (hsaved : tr.savedFlag = none)
    (hf : IsFrame part f) (hsound : SoundStream bs) :
  f.Sound (lastBlock fs)
  := by
  apply hsound fs f (pre ++ part) rest (hg.frames.snoc hf)
  rw [hg.stream, hsaved, List.append_assoc]
  rfl

/-- The reader takes a frame. -/
theorem Given.next
    {bs rest : List UInt8} {toks toks' : List (Option Token)}
    {tr tr' : DeflatedTokenReader F} {fs : List TokenFrame} {f : TokenFrame} {pre : List UInt8}
    {pend : List ℤ} (part : List UInt8) (hg : Given bs toks tr (part ++ rest) fs pre [])
    (hsaved : tr.savedFlag = none) (hf : IsFrame part f) (hsound : SoundStream bs)
    (hsaved' : tr'.savedFlag = none)
    (hstands : Stands (fs ++ [f]) tr' pend)
    (hblocks : blockIndices toks'.reduceOption ++ pend =
      blockIndices toks.reduceOption ++ f.blockList (lastBlock fs))
    (hlit : (∃ data, some (.literal data) ∈ toks') → ∃ data, some (.literal data) ∈ toks) :
  Given bs toks' tr' rest (fs ++ [f]) (pre ++ part) pend
  := by
  obtain ⟨hframes, hstream, -, hge, hlt, hnonneg, hsofar, hliterals⟩ := hg
  have hs : f.Sound (lastBlock fs) := by
    apply hsound fs f (pre ++ part) rest (hframes.snoc hf)
    rw [hstream, hsaved, List.append_assoc]
    rfl
  obtain ⟨hrange, hge', hlt'⟩ := hs.range hge hlt hf
  rw [List.append_nil] at hsofar
  constructor
  · apply hframes.snoc hf
  · rw [hstream, hsaved, hsaved', List.append_assoc]
    rfl
  · apply hstands
  · rw [lastBlock_snoc]
    apply hge'
  · rw [lastBlock_snoc]
    apply hlt'
  · rw [framesBlocks_snoc]
    apply List.forall_mem_append.mpr ⟨hnonneg, hrange⟩
  · rw [framesBlocks_snoc, hblocks, hsofar]
  · intro h
    obtain ⟨data, hdata⟩ := hliterals (hlit h)
    exact ⟨data, List.mem_append_left _ hdata⟩

@[simp]
theorem blockIndices_append
    (toks toks' : List Token) :
  blockIndices (toks ++ toks') = blockIndices toks ++ blockIndices toks'
  := by
  rw [blockIndices_eq, blockIndices_eq, blockIndices_eq, tokenItems_append,
    List.filterMap_append]

theorem blockIndices_given
    (toks : List (Option Token)) (tok : Option Token) :
  blockIndices (toks ++ [tok]).reduceOption =
    blockIndices toks.reduceOption ++ blockIndices tok.toList
  := by
  rw [List.reduceOption_append, blockIndices_append]
  cases tok <;> rfl

/-- A run is its first block and as many more as it counts. -/
theorem blockList_run
    (start : ℤ) (n : ℕ) :
  (List.range (1 + n)).map (fun i : ℕ => start + i) =
    start :: (List.range n).map fun i : ℕ => start + 1 + i
  := by
  rw [add_comm, List.range_succ_eq_map, List.map_cons, List.map_map]
  congr 1
  · omega
  · apply List.map_congr_left
    intro i _
    simp only [Function.comp_apply, Nat.cast_succ]
    omega

theorem tokens_run
    (start : ℤ) (n : ℕ) :
  ((List.range (n + 1)).map fun i : ℕ => some (Token.blockMatch (start + i))) =
    some (.blockMatch start) :: (List.range n).map fun i : ℕ => some (.blockMatch (start + 1 + i))
  := by
  have h := congrArg (List.map fun i => some (Token.blockMatch i)) (blockList_run start n)
  rw [add_comm, List.map_cons, List.map_map, List.map_map] at h
  apply h

/-- The reader acts upon what follows the index of a frame of blocks. -/
theorem given_count
    {bs pre : List UInt8} {toks : List (Option Token)} {tr : DeflatedTokenReader F}
    {fs : List TokenFrame} {f : UInt8} {t : ℤ} {w w' : Endpoint H UInt8}
    {tok : Option Token} {tr' : DeflatedTokenReader F} (hd : List UInt8) (idx : FrameIndex)
    (hsound : SoundStream bs)
    (hg : Given bs toks tr (hd ++ w.input) fs pre []) (hs : tr.state = .idle)
    (hsaved : tr.savedFlag = none)
    (hframe : ∀ bs count, IsCount f bs count → IsFrame (hd ++ bs) (.blocks idx count))
    (h0 : 0 ≤ idx.start (lastBlock fs))
    (ht : idx.start (lastBlock fs) < 2147483648 → t = idx.start (lastBlock fs))
    (h : Proc.Returns answer closed
      (if f &&& 1 ≠ 0 then do
        let bb ← readBytes 2
        pure (some (.blockMatch t), { tr with rxToken := t, rxRun := ofLeBytes bb,
                                              state := .running })
      else
        pure (some (.blockMatch t), { tr with rxToken := t }) : Session Reply _) w (tok, tr') w') :
  ∃ fs pre pend, Given bs (toks ++ [tok]) tr' w'.input fs pre pend
  := by
  have hlit : ∀ t, (∃ data, some (.literal data) ∈ toks ++ [some (.blockMatch t)]) →
      ∃ data, some (.literal data) ∈ toks := by
    rintro t ⟨data, hdata⟩
    use data
    simpa using hdata
  by_cases hf : f &&& 1 = 0
  · -- a single block
    rw [if_neg (not_not.mpr hf)] at h
    obtain ⟨heq, rfl⟩ := h.pure_inv
    obtain ⟨rfl, rfl⟩ := Prod.mk.inj heq
    have hframe := hframe [] none (.none hf)
    rw [List.append_nil] at hframe
    obtain ⟨-, hlt⟩ := hg.sound hsaved hframe hsound
    simp only [Option.getD_none, Nat.cast_zero, add_zero] at hlt
    refine ⟨_, _, [], hg.next _ hsaved hframe hsound hsaved (.idle hs hsaved ?_) ?_ (hlit _)⟩
    · rw [lastBlock_snoc, ht hlt]
      simp only [TokenFrame.next, Option.getD_none, Nat.cast_zero, add_zero]
    · rw [List.append_nil, blockIndices_given, ht hlt]
      simp [blockIndices, TokenFrame.blockList]
  · -- a run
    rw [if_pos hf] at h
    obtain ⟨bb, w₁, hbb, h⟩ := h.bind_inv
    obtain ⟨heq, rfl⟩ := h.pure_inv
    obtain ⟨rfl, rfl⟩ := Prod.mk.inj heq
    obtain ⟨hin, hlen⟩ := readBytes_inv hbb
    have hframe := hframe bb _ (.some hf hlen)
    rw [hin, ← List.append_assoc] at hg
    obtain ⟨hne, hlt⟩ := hg.sound hsaved hframe hsound
    simp only [Option.getD_some] at hlt
    have hsmall := ofLeBytes_lt bb
    rw [hlen] at hsmall
    obtain ⟨n, hn⟩ : ∃ n, ofLeBytes bb = n + 1 :=
      Nat.exists_eq_succ_of_ne_zero fun h0 => hne (by rw [h0])
    rw [hn] at hlt hsmall hframe
    have ht := ht (by omega)
    refine ⟨_, _, (List.range (n + 1)).map fun i : ℕ => t + 1 + i,
      hg.next _ hsaved hframe hsound hsaved (.running rfl hsaved ?_ (by omega) ?_ ?_) ?_ (hlit _)⟩
    · dsimp only
      rw [hn]
      push_cast
      rfl
    · rw [ht]
      apply h0
    · rw [lastBlock_snoc, ht]
      simp only [TokenFrame.next, Option.getD_some]
      push_cast
      rfl
    · rw [blockIndices_given, ht, List.append_assoc]
      simp only [TokenFrame.blockList, Option.getD_some, blockList_run]
      rfl

theorem readInt_inv
    {w w' : Endpoint H UInt8} {x : ℤ}
    (h : Proc.Returns answer closed (readInt : Session Reply ℤ) w x w') :
  ∃ bs, w.input = bs ++ w'.input ∧ bs.length = 4 ∧ x = wrapI32 (ofLeBytes bs)
  := by
  unfold readInt at h
  obtain ⟨bs, w₁, hbs, h⟩ := h.bind_inv
  obtain ⟨hx, hw⟩ := h.pure_inv
  obtain ⟨hin, hlen⟩ := readBytes_inv hbs
  exact ⟨bs, hw ▸ hin, hlen, hx⟩

/-- The reader acts upon a flag that is not one of compressed data. -/
theorem given_decodeFlag
    {bs pre : List UInt8} {flag : UInt8} {toks : List (Option Token)} {tr : DeflatedTokenReader F}
    {fs : List TokenFrame} {w w' : Endpoint H UInt8} {tok : Option Token}
    {tr' : DeflatedTokenReader F} (hsound : SoundStream bs)
    (hg : Given bs toks tr (flag :: w.input) fs pre []) (hs : tr.state = .idle)
    (hsaved : tr.savedFlag = none) (htoken : tr.rxToken = lastBlock fs)
    (hflag : flag &&& 0xC0 ≠ deflatedData)
    (h : Proc.Returns answer closed (decodeFlag tr flag : Session Reply _) w (tok, tr') w') :
  ∃ fs pre pend, Given bs (toks ++ [tok]) tr' w'.input fs pre pend
  := by
  have hge := hg.last_ge
  unfold decodeFlag at h
  by_cases hend : flag = endFlag
  · subst hend
    rw [if_pos rfl] at h
    obtain ⟨heq, rfl⟩ := h.pure_inv
    obtain ⟨rfl, rfl⟩ := Prod.mk.inj heq
    refine ⟨_, _, [], hg.next [endFlag] hsaved .eof hsound hsaved (.init rfl hsaved ?_)
      ?_ ?_⟩
    · rw [lastBlock_snoc]
      rfl
    · rw [blockIndices_given]
      simp [blockIndices, TokenFrame.blockList]
    · rintro ⟨data, hdata⟩
      use data
      simpa using hdata
  · rw [if_neg hend] at h
    by_cases hrel : flag &&& tokenRel ≠ 0
    · rw [if_pos hrel] at h
      refine given_count [flag] (.relative (flag &&& 0x3f).toNat) hsound hg hs
        hsaved (fun bs count hc => .relative hrel hc) ?_ ?_ h
      · simp only [FrameIndex.start]
        omega
      · intro hlt
        rw [htoken]
        apply wrapI32_of_isI32
        simp only [FrameIndex.start] at hlt ⊢
        constructor <;> omega
    · rw [if_neg hrel] at h
      obtain ⟨t, w₁, ht, h⟩ := h.bind_inv
      obtain ⟨idx, hin, hlen, hidx⟩ := readInt_inv ht
      by_cases hneg : t < 0
      · rw [if_pos hneg] at h
        obtain ⟨heq, -⟩ := Prog.Ends.of_ret h
        cases heq
      · rw [if_neg hneg] at h
        rw [hin] at hg
        have hframe : ∀ bs count, IsCount flag bs count →
            IsFrame (flag :: idx ++ bs) (.blocks (.absolute t) count) := by
          intro bs count hc
          rw [hidx] at hneg ⊢
          apply IsFrame.absolute hend hflag (not_not.mp hrel) hlen (not_lt.mp hneg) hc
        exact given_count (flag :: idx) (.absolute t) hsound hg hs hsaved hframe
          (not_lt.mp hneg) (fun _ => rfl) h

/-- What is kept from the start of the stream `bs` when `toks` have been given out. -/
def Kept (bs : List UInt8) (toks : List (Option Token)) :
    DeflatedTokenReader F ⊕ Option Token × DeflatedTokenReader F → Endpoint H UInt8 → Prop
  | .inl tr, w => ∃ fs pre pend, Given bs toks tr w.input fs pre pend
  | .inr (tok, tr), w => ∃ fs pre pend, Given bs (toks ++ [tok]) tr w.input fs pre pend

/-- Literal bytes are given out and leave the reader where it is in the frames. -/
theorem Given.literal
    {bs pre input input' data : List UInt8} {toks : List (Option Token)}
    {tr tr' : DeflatedTokenReader F} {fs : List TokenFrame}
    (hg : Given bs toks tr input fs pre [])
    (hin : tr'.savedFlag.toList ++ input' = tr.savedFlag.toList ++ input)
    (hstands : Stands fs tr' []) (hdata : ∃ data, .deflated data ∈ fs) :
  Given bs (toks ++ [some (.literal data)]) tr' input' fs pre []
  := by
  obtain ⟨hframes, hstream, -, hge, hlt, hnonneg, hsofar, -⟩ := hg
  refine ⟨hframes, by rw [hstream, hin], hstands, hge, hlt, hnonneg, ?_, fun _ => hdata⟩
  rw [blockIndices_given, ← hsofar]
  simp [blockIndices]

/-- The reader goes from one state to another. -/
theorem Given.turn
    {bs pre input : List UInt8} {toks : List (Option Token)} {tr : DeflatedTokenReader F}
    {fs : List TokenFrame} (hg : Given bs toks tr input fs pre []) (tr' : DeflatedTokenReader F)
    (input' : List UInt8) (hin : tr'.savedFlag.toList ++ input' = tr.savedFlag.toList ++ input)
    (hstands : Stands fs tr' []) :
  Given bs toks tr' input' fs pre []
  := by
  obtain ⟨hframes, hstream, -, hge, hlt, hnonneg, hsofar, hliterals⟩ := hg
  exact ⟨hframes, by rw [hstream, hin], hstands, hge, hlt, hnonneg, hsofar, hliterals⟩

/-- The reader acts upon a flag. -/
theorem given_handleFlag
    {bs pre : List UInt8} {flag : UInt8} {toks : List (Option Token)} {tr : DeflatedTokenReader F}
    {fs : List TokenFrame} {w w' : Endpoint H UInt8}
    {x : DeflatedTokenReader F ⊕ Option Token × DeflatedTokenReader F} (hsound : SoundStream bs)
    (hg : Given bs toks tr (flag :: w.input) fs pre [])
    (hs : tr.state = .idle ∨ tr.state = .inflated ∧ ∃ data, .deflated data ∈ fs)
    (hsaved : tr.savedFlag = none) (htoken : tr.rxToken = lastBlock fs)
    (h : Proc.Returns answer closed (handleFlag tr flag : Session Reply _) w x w') :
  Kept bs toks x w'
  := by
  unfold handleFlag at h
  by_cases hflag : flag &&& 0xC0 = deflatedData
  · -- a frame of compressed data
    rw [if_pos hflag] at h
    obtain ⟨lo, w₁, hlo, h⟩ := h.bind_inv
    obtain ⟨data, w₂, hdata, h⟩ := h.bind_inv
    obtain ⟨rfl, rfl⟩ := h.pure_inv
    obtain ⟨hin, hlen⟩ := readBytes_inv hdata
    rw [readByte_inv hlo, hin] at hg
    have hframe : IsFrame (flag :: lo :: data) (.deflated data) := .deflated hflag hlen
    refine ⟨_, _, [], hg.next (flag :: lo :: data) hsaved hframe hsound hsaved
      (.inflating rfl hsaved ?_ ⟨data, List.mem_append_right _ List.mem_cons_self⟩) ?_ id⟩
    · rw [lastBlock_snoc]
      apply htoken
    · rfl
  · rw [if_neg hflag] at h
    by_cases hinf : tr.state = .inflated
    · rw [if_pos hinf] at h
      have hdata : ∃ data, .deflated data ∈ fs := by
        rcases hs with hs | ⟨-, hdata⟩
        · rw [hs] at hinf
          cases hinf
        · apply hdata
      obtain ⟨r, -, h⟩ := lift_inv h
      by_cases hout : r.out ≠ []
      · -- literal bytes that were still in the inflate stream
        rw [if_pos hout] at h
        obtain ⟨rfl, rfl⟩ := h.pure_inv
        refine ⟨fs, pre, [], hg.literal ?_ (.inflated hinf htoken hdata) hdata⟩
        rw [hsaved]
        rfl
      · rw [if_neg hout] at h
        obtain ⟨r', -, h⟩ := lift_inv h
        by_cases hc : r'.consumed ≠ 4
        · rw [if_pos hc] at h
          obtain ⟨heq, -⟩ := Prog.Ends.of_ret h
          cases heq
        · rw [if_neg hc] at h
          obtain ⟨⟨tok, tr'⟩, w₁, hdec, h⟩ := h.bind_inv
          obtain ⟨rfl, rfl⟩ := h.pure_inv
          have hturn := hg.turn
            { tr with inflate := r'.state, cbuf := syncTrailer, state := .idle } _ rfl
            (.idle rfl hsaved htoken)
          exact given_decodeFlag hsound hturn rfl hsaved htoken hflag hdec
    · rw [if_neg hinf] at h
      obtain ⟨⟨tok, tr'⟩, w₁, hdec, h⟩ := h.bind_inv
      obtain ⟨rfl, rfl⟩ := h.pure_inv
      have hidle : tr.state = .idle := by
        rcases hs with hs | ⟨hs, -⟩
        · apply hs
        · cases hinf hs
      exact given_decodeFlag hsound hg hidle hsaved htoken hflag hdec

/-- A reader that has a flag acts upon it. -/
theorem step_saved
    {tr : DeflatedTokenReader F} {flag : UInt8} (hs : tr.state = .idle ∨ tr.state = .inflated)
    (hsaved : tr.savedFlag = some flag) :
  (step tr : Session Reply _) = handleFlag { tr with savedFlag := none } flag
  := by
  unfold step
  rcases hs with hs | hs
  · rw [hs, hsaved]
  · rw [hs, hsaved]

/-- A reader that waits for a flag reads one. -/
theorem step_waiting
    {tr : DeflatedTokenReader F} (hs : tr.state = .idle ∨ tr.state = .inflated)
    (hsaved : tr.savedFlag = none) :
  (step tr : Session Reply _) = (do
    let flag ← readByte
    handleFlag tr flag)
  := by
  unfold step
  rcases hs with hs | hs
  · rw [hs, hsaved]
  · rw [hs, hsaved]

/-- A reader in a run gives out its next block. -/
theorem step_running
    {tr : DeflatedTokenReader F} (hs : tr.state = .running) :
  (step tr : Session Reply _) =
    pure (.inr (some (.blockMatch (wrapI32 (tr.rxToken + 1))),
      { tr with rxToken := wrapI32 (tr.rxToken + 1), rxRun := wrapI32 (tr.rxRun - 1),
                state := if wrapI32 (tr.rxRun - 1) = 0 then .idle else .running }))
  := by
  unfold step
  rw [hs]

/-- A reader between frames goes on. -/
theorem given_waiting
    {bs pre : List UInt8} {toks : List (Option Token)} {tr : DeflatedTokenReader F}
    {fs : List TokenFrame} {w w' : Endpoint H UInt8}
    {x : DeflatedTokenReader F ⊕ Option Token × DeflatedTokenReader F} (hsound : SoundStream bs)
    (hg : Given bs toks tr w.input fs pre [])
    (hs : tr.state = .idle ∨ tr.state = .inflated ∧ ∃ data, .deflated data ∈ fs)
    (htoken : tr.rxToken = lastBlock fs)
    (h : Proc.Returns answer closed (step tr : Session Reply _) w x w') :
  Kept bs toks x w'
  := by
  have hs' : tr.state = .idle ∨ tr.state = .inflated := hs.imp_right And.left
  cases hsaved : tr.savedFlag with
  | some flag =>
      rw [step_saved hs' hsaved] at h
      have hstands : Stands fs { tr with savedFlag := none } [] := by
        rcases hs with hs | ⟨hs, hdata⟩
        · exact .idle hs rfl htoken
        · exact .inflated hs htoken hdata
      have hturn := hg.turn { tr with savedFlag := none } (flag :: w.input)
        (by rw [hsaved]; rfl) hstands
      exact given_handleFlag hsound hturn hs rfl htoken h
  | none =>
      rw [step_waiting hs' hsaved] at h
      obtain ⟨flag, w₁, hflag, h⟩ := h.bind_inv
      rw [readByte_inv hflag] at hg
      exact given_handleFlag hsound hg hs hsaved htoken h

/-- A round of the reader. -/
theorem given_step
    {bs pre : List UInt8} {toks : List (Option Token)} {tr : DeflatedTokenReader F}
    {fs : List TokenFrame} {pend : List ℤ} {w w' : Endpoint H UInt8}
    {x : DeflatedTokenReader F ⊕ Option Token × DeflatedTokenReader F} (hsound : SoundStream bs)
    (hg : Given bs toks tr w.input fs pre pend)
    (h : Proc.Returns answer closed (step tr : Session Reply _) w x w') :
  Kept bs toks x w'
  := by
  cases hg.stands with
  | init hs hsaved hlast =>
      unfold step at h
      rw [hs] at h
      obtain ⟨rfl, rfl⟩ := h.pure_inv
      exact ⟨fs, pre, [], hg.turn _ _ rfl (.idle rfl hsaved hlast.symm)⟩
  | idle hs hsaved htoken => exact given_waiting hsound hg (.inl hs) htoken h
  | inflated hs htoken hdata => exact given_waiting hsound hg (.inr ⟨hs, hdata⟩) htoken h
  | inflating hs hsaved htoken hdata =>
      unfold step at h
      rw [hs] at h
      obtain ⟨r, -, h⟩ := lift_inv h
      have hstands : ∀ s, s = (if tr.cbuf.drop r.consumed = [] then RxState.inflated
          else RxState.inflating) → Stands fs { tr with
            inflate := r.state, cbuf := tr.cbuf.drop r.consumed, state := s } [] := by
        rintro s rfl
        split
        · exact .inflated rfl htoken hdata
        · exact .inflating rfl hsaved htoken hdata
      dsimp only at h
      by_cases hout : r.out ≠ []
      · rw [if_pos hout] at h
        obtain ⟨rfl, rfl⟩ := h.pure_inv
        exact ⟨fs, pre, [], hg.literal rfl (hstands _ rfl) hdata⟩
      · rw [if_neg hout] at h
        obtain ⟨rfl, rfl⟩ := h.pure_inv
        exact ⟨fs, pre, [], hg.turn _ _ rfl (hstands _ rfl)⟩
  | @running n hs hsaved hrun hn h0 htoken =>
      rw [step_running hs] at h
      obtain ⟨rfl, rfl⟩ := h.pure_inv
      have hlt := hg.last_lt
      have hnext : wrapI32 (tr.rxToken + 1) = tr.rxToken + 1 :=
        wrapI32_of_isI32 ⟨by omega, by omega⟩
      have hleft : wrapI32 (tr.rxRun - 1) = n := by
        rw [hrun, add_sub_cancel_right]
        exact wrapI32_of_isI32 ⟨by omega, by omega⟩
      rw [hnext, hleft]
      obtain ⟨hframes, hstream, -, hge, -, hnonneg, hsofar, hliterals⟩ := hg
      have hpend : (List.range (n + 1)).map (fun i : ℕ => tr.rxToken + 1 + i) =
          (tr.rxToken + 1) :: (List.range n).map fun i : ℕ => tr.rxToken + 1 + 1 + i := by
        rw [add_comm n, blockList_run]
      rw [hpend] at hsofar
      refine ⟨fs, pre, (List.range n).map fun i : ℕ => tr.rxToken + 1 + 1 + i,
        hframes, hstream, ?_, hge, hlt, hnonneg, ?_, ?_⟩
      · cases n with
        | zero => exact .idle rfl hsaved (by rw [← htoken]; rfl)
        | succ n =>
            refine .running (n := n) ?_ hsaved ?_ (by omega) ?_ ?_
            · rw [if_neg (by omega)]
            · push_cast
              rfl
            · dsimp only
              omega
            · dsimp only
              rw [← htoken]
              push_cast
              omega
      · rw [blockIndices_given, ← hsofar, List.append_assoc]
        rfl
      · rintro ⟨data, hdata⟩
        apply hliterals
        use data
        simpa using hdata

/-- A call. -/
theorem given_readToken
    {bs pre : List UInt8} {toks : List (Option Token)} {tr tr' : DeflatedTokenReader F}
    {fs : List TokenFrame} {pend : List ℤ} {w w' : Endpoint H UInt8} {tok : Option Token}
    (hsound : SoundStream bs) (hg : Given bs toks tr w.input fs pre pend)
    (h : Proc.Returns answer closed (readToken tr : Session Reply _) w (tok, tr') w') :
  ∃ fs pre pend, Given bs (toks ++ [tok]) tr' w'.input fs pre pend
  := by
  have hsafe : Proc.Safe (Prog.Answers (Endpoint.answer answer closed)) (fun _ _ => True)
      (readToken tr : Session Reply _) (fun res w => Kept bs toks (.inr res) w)
      (fun _ _ => True) w := by
    apply Proc.safe_loop fun tr w => Kept bs toks (.inl tr) w
    · exact ⟨fs, pre, pend, hg⟩
    · rintro tr w ⟨fs, pre, pend, hg⟩
      apply Prog.safe_of_ends
      intro r w' hr
      cases r with
      | ok x =>
          have hx := given_step hsound hg hr
          cases x with
          | inl tr' => apply hx
          | inr res => apply hx
      | error e => trivial
  exact hsafe.ends h

/-- The bytes of a block only change the inflate stream. -/
theorem seeBlock_inv
    {tr tr' : DeflatedTokenReader F} {bytes : List UInt8} (h : tr.seeBlock bytes = .ok tr') :
  tr'.state = tr.state ∧ tr'.savedFlag = tr.savedFlag ∧ tr'.rxToken = tr.rxToken ∧
    tr'.rxRun = tr.rxRun
  := by
  unfold seeBlock at h
  cases hd : seeBytes F tr.inflate bytes with
  | error e =>
      rw [hd] at h
      cases h
  | ok d =>
      rw [hd] at h
      cases h
      exact ⟨rfl, rfl, rfl, rfl⟩

theorem Stands.congr
    {fs : List TokenFrame} {tr tr' : DeflatedTokenReader F} {pend : List ℤ}
    (h : Stands fs tr pend) (hstate : tr'.state = tr.state) (hsaved : tr'.savedFlag = tr.savedFlag)
    (htoken : tr'.rxToken = tr.rxToken) (hrun : tr'.rxRun = tr.rxRun) :
  Stands fs tr' pend
  := by
  cases h with
  | init hs hn hlast => exact .init (hstate.trans hs) (hsaved.trans hn) hlast
  | idle hs hn ht => exact .idle (hstate.trans hs) (hsaved.trans hn) (htoken.trans ht)
  | inflating hs hn ht hdata =>
      exact .inflating (hstate.trans hs) (hsaved.trans hn) (htoken.trans ht) hdata
  | inflated hs ht hdata => exact .inflated (hstate.trans hs) (htoken.trans ht) hdata
  | running hs hn hr hlt h0 ht =>
      rw [← htoken]
      rw [← htoken] at h0 ht
      exact .running (hstate.trans hs) (hsaved.trans hn) (hrun.trans hr) hlt h0 ht

theorem Given.see
    {bs pre input bytes : List UInt8} {toks : List (Option Token)}
    {tr tr' : DeflatedTokenReader F} {fs : List TokenFrame} {pend : List ℤ}
    (hg : Given bs toks tr input fs pre pend) (h : tr.seeBlock bytes = .ok tr') :
  Given bs toks tr' input fs pre pend
  := by
  obtain ⟨hframes, hstream, hstands, hge, hlt, hnonneg, hsofar, hliterals⟩ := hg
  obtain ⟨hstate, hsaved, htoken, hrun⟩ := seeBlock_inv h
  rw [← hsaved] at hstream
  exact ⟨hframes, hstream, hstands.congr hstate hsaved htoken hrun, hge, hlt, hnonneg, hsofar,
    hliterals⟩

/-- All calls of a caller. -/
theorem Calls.given
    {bs pre : List UInt8} {toks toks' : List (Option Token)} {tr tr' : DeflatedTokenReader F}
    {fs : List TokenFrame} {pend : List ℤ} {w w' : Endpoint H UInt8} (hsound : SoundStream bs)
    (h : Calls answer closed tr w toks' tr' w') (hg : Given bs toks tr w.input fs pre pend) :
  ∃ fs pre pend, Given bs (toks ++ toks') tr' w'.input fs pre pend
  := by
  induction h generalizing toks fs pre pend with
  | nil =>
      rw [List.append_nil]
      exact ⟨fs, pre, pend, hg⟩
  | read h _ ih =>
      obtain ⟨fs, pre, pend, hg⟩ := given_readToken hsound hg h
      rw [List.append_cons]
      exact ih hg
  | see h _ ih => exact ih (hg.see h)

/-! ### What the caller is given -/

/-- The blocks that the caller has been given are those of the frames that the reader has taken
from the stream, up to the ones that are still to come of a run; between runs the reader is at the
start of a frame. No block has a negative index, and there are no more than the frames count. -/
def Delivered (bs : List UInt8) (toks : List (Option Token)) (tr : DeflatedTokenReader F)
    (input : List UInt8) : Prop :=
  ∃ fs pre pend, IsFrames pre fs ∧ bs = pre ++ (tr.savedFlag.toList ++ input) ∧
    blockIndices toks.reduceOption ++ pend = framesBlocks 0 fs ∧
    (pend = [] ↔ tr.state ≠ .running) ∧
    (∀ idx ∈ blockIndices toks.reduceOption, 0 ≤ idx) ∧
    (blockIndices toks.reduceOption).length ≤ (fs.map TokenFrame.size).sum ∧
    ((∀ data, .deflated data ∉ fs) →
      toks.reduceOption = (blockIndices toks.reduceOption).map .blockMatch)

/-- Whatever calls a caller makes on the stream, it is given the blocks of the frames. -/
def Bounded (answer : H → (x : X) → Option (Reply x × H)) (closed : Bool) (F : Flate)
    (bs : List UInt8) : Prop :=
  ∀ w toks tr w', w.input = bs → Calls answer closed (new F) w toks tr w' →
    Delivered bs toks tr w'.input

theorem Stands.pend_iff
    {fs : List TokenFrame} {tr : DeflatedTokenReader F} {pend : List ℤ} (h : Stands fs tr pend) :
  pend = [] ↔ tr.state ≠ .running
  := by
  cases h with
  | init hs => simp [hs]
  | idle hs => simp [hs]
  | inflating hs => simp [hs]
  | inflated hs => simp [hs]
  | running hs => simp [hs]

/-- Without literal bytes all tokens are blocks. -/
theorem map_blockIndices
    {toks : List Token} (h : ∀ data, .literal data ∉ toks) :
  toks = (blockIndices toks).map .blockMatch
  := by
  induction toks with
  | nil => rfl
  | cons tok toks ih =>
      have hrest := ih fun data hdata => h data (List.mem_cons_of_mem _ hdata)
      cases tok with
      | literal data => exact absurd List.mem_cons_self (h data)
      | blockMatch idx =>
          rw [blockIndices, List.map_cons, ← hrest]

theorem Given.delivered
    {bs pre input : List UInt8} {toks : List (Option Token)} {tr : DeflatedTokenReader F}
    {fs : List TokenFrame} {pend : List ℤ} (hg : Given bs toks tr input fs pre pend) :
  Delivered bs toks tr input
  := by
  refine ⟨fs, pre, pend, hg.frames, hg.stream, hg.blocks, hg.stands.pend_iff, ?_, ?_, ?_⟩
  · intro idx hidx
    apply hg.nonneg
    rw [← hg.blocks]
    apply List.mem_append_left _ hidx
  · rw [← length_framesBlocks 0, ← hg.blocks, List.length_append]
    omega
  · intro hdata
    apply map_blockIndices
    intro data hlit
    obtain ⟨data', hmem⟩ := hg.literals ⟨data, List.reduceOption_mem_iff.mp hlit⟩
    exact hdata data' hmem

/-- On a stream of sound frames a caller is given the blocks of the frames. -/
theorem bounded_of_sound
    {bs : List UInt8} (hsound : SoundStream bs) :
  Bounded answer closed F bs
  := by
  intro w toks tr w' hin hcalls
  have hgiven : Given bs [] (new F) w.input [] [] [] := by
    refine ⟨.nil, hin.symm, .init rfl rfl rfl, le_refl 0, ?_, List.forall_mem_nil _, rfl, ?_⟩
    · decide
    · rintro ⟨data, hdata⟩
      cases hdata
  obtain ⟨fs, pre, pend, hg⟩ := hcalls.given hsound hgiven
  exact hg.delivered

/-! ### One run -/

theorem reads_readInt_bytes
    {bs : List UInt8} (hlen : bs.length = 4) :
  Proc.Reads answer (readInt : Session Reply ℤ) bs (wrapI32 (ofLeBytes bs))
  := (reads_readBytes bs hlen).map fun bs => wrapI32 (ofLeBytes bs)

/-- A flag with a relative index is not one of compressed data and does not end the file. -/
theorem relative_ne
    {flag : UInt8} (h : flag &&& tokenRel ≠ 0) :
  flag ≠ endFlag ∧ flag &&& 0xC0 ≠ deflatedData
  := by
  constructor
  · rintro rfl
    apply h
    decide
  · intro hdata
    apply h
    have hand : flag &&& 0xC0 &&& tokenRel = deflatedData &&& tokenRel := by rw [hdata]
    rw [UInt8.and_assoc] at hand
    apply hand

/-- The count field of a run is read. -/
theorem reads_count
    (tr : DeflatedTokenReader F) {f : UInt8} {bs : List UInt8} (t : ℤ) (hf : f &&& 1 ≠ 0)
    (hlen : bs.length = 2) :
  Proc.Reads answer
    (if f &&& 1 ≠ 0 then do
      let bb ← readBytes 2
      pure (some (.blockMatch t), { tr with rxToken := t, rxRun := ofLeBytes bb,
                                            state := .running })
    else
      pure (some (.blockMatch t), { tr with rxToken := t }) :
      Session Reply (Option Token × DeflatedTokenReader F)) bs
    (some (.blockMatch t), { tr with rxToken := t, rxRun := ofLeBytes bs, state := .running })
  := by
  rw [if_pos hf]
  apply (reads_readBytes bs hlen).map fun bb =>
    (some (Token.blockMatch t),
      ({ tr with rxToken := t, rxRun := ofLeBytes bb, state := .running } : DeflatedTokenReader F))

/-- A reader that waits for a flag reads a run. -/
theorem reads_run
    (answer : H → (x : X) → Option (Reply x × H)) (tr : DeflatedTokenReader F)
    (hs : tr.state = .idle) (hsaved : tr.savedFlag = none) {part : List UInt8} {idx : FrameIndex}
    {n : ℕ} (hf : IsFrame part (.blocks idx (some n))) :
  Proc.Reads answer (readToken tr : Session Reply _) part
    (some (.blockMatch (wrapI32 (idx.start tr.rxToken))),
      { tr with rxToken := wrapI32 (idx.start tr.rxToken), rxRun := n, state := .running })
  := by
  apply Proc.reads_loop_done
  rw [step_waiting (.inl hs) hsaved]
  have hne : tr.state ≠ .inflated := by
    rw [hs]
    decide
  cases hf with
  | @relative flag bs _ hflag hcount =>
      obtain ⟨hend, hdata⟩ := relative_ne hflag
      cases hcount with
      | some hrun hlen =>
          apply (reads_readByte flag).bind
          unfold handleFlag decodeFlag
          rw [if_neg hdata, if_neg hne, if_neg hend, if_pos hflag]
          apply Proc.Reads.map (f := Sum.inr)
          exact reads_count tr (wrapI32 (tr.rxToken + (flag &&& 0x3f).toNat)) hrun hlen
  | @absolute flag bs cs _ hend hdata hflag hlen4 hidx hcount =>
      cases hcount with
      | some hrun hlen =>
          apply (reads_readByte flag).bind
          unfold handleFlag decodeFlag
          rw [if_neg hdata, if_neg hne, if_neg hend, if_neg (not_not.mpr hflag)]
          have hwrap : wrapI32 (wrapI32 (ofLeBytes bs)) = wrapI32 (ofLeBytes bs) :=
            wrapI32_of_isI32 (isI32_wrapI32 _)
          rw [FrameIndex.start, hwrap]
          apply Proc.Reads.map (f := Sum.inr)
          apply (reads_readInt_bytes hlen4).bind
          rw [if_neg (not_lt.mpr hidx)]
          exact reads_count tr (wrapI32 (ofLeBytes bs)) hrun hlen

/-- A reader in a run gives out the next block. -/
theorem returns_running
    (answer : H → (x : X) → Option (Reply x × H)) (closed : Bool) {tr : DeflatedTokenReader F}
    (hs : tr.state = .running) (w : Endpoint H UInt8) :
  Proc.Returns answer closed (readToken tr : Session Reply _) w
    (some (.blockMatch (wrapI32 (tr.rxToken + 1))),
      { tr with rxToken := wrapI32 (tr.rxToken + 1), rxRun := wrapI32 (tr.rxRun - 1),
                state := if wrapI32 (tr.rxRun - 1) = 0 then .idle else .running }) w
  := by
  apply Proc.returns_loop_done
  rw [step_running hs]
  apply Proc.returns_pure

/-- The blocks that are left of a run are given out without a look at the channel, and then the
reader waits for a flag. -/
theorem calls_running
    (answer : H → (x : X) → Option (Reply x × H)) (closed : Bool) (tr : DeflatedTokenReader F)
    {n : ℕ} (hs : tr.state = .running) (hsaved : tr.savedFlag = none) (hrun : tr.rxRun = n + 1)
    (hn : n < 65536) (h0 : 0 ≤ tr.rxToken) (hlt : tr.rxToken + (n + 1) < 2147483648)
    (w : Endpoint H UInt8) :
  ∃ tr', Calls answer closed tr w
      ((List.range (n + 1)).map fun i : ℕ => some (.blockMatch (tr.rxToken + 1 + i))) tr' w ∧
    tr'.state = .idle ∧ tr'.savedFlag = none
  := by
  induction n generalizing tr with
  | zero =>
      have hnext : wrapI32 (tr.rxToken + 1) = tr.rxToken + 1 :=
        wrapI32_of_isI32 ⟨by omega, by omega⟩
      have hleft : wrapI32 (tr.rxRun - 1) = 0 := by
        rw [hrun]
        rfl
      have hcall := returns_running answer closed hs w
      rw [hnext, hleft, if_pos rfl] at hcall
      refine ⟨{ tr with rxToken := tr.rxToken + 1, rxRun := 0, state := .idle }, .read ?_ .nil,
        rfl, hsaved⟩
      simp only [Nat.cast_zero, add_zero]
      apply hcall
  | succ n ih =>
      have hnext : wrapI32 (tr.rxToken + 1) = tr.rxToken + 1 :=
        wrapI32_of_isI32 ⟨by omega, by omega⟩
      have hleft : wrapI32 (tr.rxRun - 1) = n + 1 := by
        rw [hrun, add_sub_cancel_right]
        push_cast
        exact wrapI32_of_isI32 ⟨by omega, by omega⟩
      have hcall := returns_running answer closed hs w
      rw [hnext, hleft, if_neg (by omega)] at hcall
      push_cast at hlt
      obtain ⟨tr', hcalls, hend⟩ := ih { tr with rxToken := tr.rxToken + 1, rxRun := n + 1,
                                                 state := .running }
        rfl hsaved rfl (by omega) (by dsimp only; omega) (by dsimp only; omega)
      rw [tokens_run]
      exact ⟨tr', .read hcall hcalls, hend⟩

/-- Showing the reader bytes of blocks does not call it. -/
theorem Calls.nil_inv
    {tr tr' : DeflatedTokenReader F} {w w' : Endpoint H UInt8}
    (h : Calls answer closed tr w [] tr' w') :
  tr'.state = tr.state
  := by
  generalize htoks : ([] : List (Option Token)) = toks at h
  induction h with
  | nil => rfl
  | read => cases htoks
  | see h _ ih =>
      obtain ⟨hstate, -⟩ := seeBlock_inv h
      rw [ih htoks, hstate]

/-- The first call of a caller. -/
theorem Calls.cons_inv
    {tr tr' : DeflatedTokenReader F} {w w' : Endpoint H UInt8} {tok : Option Token}
    {toks : List (Option Token)} (h : Calls answer closed tr w (tok :: toks) tr' w') :
  ∃ tr₀ tr₁ w₁, tr₀.state = tr.state ∧ tr₀.savedFlag = tr.savedFlag ∧ tr₀.rxToken = tr.rxToken ∧
    tr₀.rxRun = tr.rxRun ∧
    Proc.Returns answer closed (readToken tr₀ : Session Reply _) w (tok, tr₁) w₁ ∧
    Calls answer closed tr₁ w₁ toks tr' w'
  := by
  generalize htoks : tok :: toks = toks' at h
  induction h with
  | nil => cases htoks
  | @read tr tr₁ tr' w w₁ w' tok' toks' h hrest ih =>
      cases htoks
      exact ⟨tr, tr₁, w₁, rfl, rfl, rfl, rfl, h, hrest⟩
  | see h _ ih =>
      obtain ⟨tr₀, tr₁, w₁, h₁, h₂, h₃, h₄, hcall⟩ := ih htoks
      obtain ⟨hs₁, hs₂, hs₃, hs₄⟩ := seeBlock_inv h
      exact ⟨tr₀, tr₁, w₁, h₁.trans hs₁, h₂.trans hs₂, h₃.trans hs₃, h₄.trans hs₄, hcall⟩

/-- When consecutive blocks of a run have been given out, their indices fit into 32 bits. -/
theorem Calls.running_lt
    (tr : DeflatedTokenReader F) {tr' : DeflatedTokenReader F} {w w' : Endpoint H UInt8} {n : ℕ}
    (hn : n < 65536) (hs : tr.state = .running) (hrun : tr.rxRun = n)
    (hlt : tr.rxToken < 2147483648)
    (h : Calls answer closed tr w
      ((List.range n).map fun i : ℕ => some (.blockMatch (tr.rxToken + 1 + i))) tr' w') :
  tr.rxToken + n < 2147483648
  := by
  induction n generalizing tr w with
  | zero =>
      rw [Nat.cast_zero, add_zero]
      apply hlt
  | succ n ih =>
      rw [tokens_run] at h
      obtain ⟨tr₀, tr₁, w₁, h₁, -, h₃, h₄, hcall, hrest⟩ := h.cons_inv
      obtain ⟨heq, rfl⟩ := hcall.unique (returns_running answer closed (h₁.trans hs) w)
      obtain ⟨htok, rfl⟩ := Prod.mk.inj heq
      rw [h₃, h₄, hrun] at hrest
      rw [h₃] at htok
      have hnext : wrapI32 (tr.rxToken + 1) = tr.rxToken + 1 :=
        Token.blockMatch.inj (Option.some.inj htok)
      have hleft : wrapI32 ((n + 1 : ℕ) - 1) = n := by
        push_cast
        rw [add_sub_cancel_right]
        exact wrapI32_of_isI32 ⟨by omega, by omega⟩
      have hsmall := (isI32_wrapI32 (tr.rxToken + 1)).2
      rw [hnext] at hsmall hrest
      rw [hleft] at hrest
      obtain rfl | hpos := Nat.eq_zero_or_pos n
      · push_cast
        omega
      · rw [if_neg (by omega)] at hrest
        have hbound := ih { tr₀ with rxToken := tr.rxToken + 1, rxRun := n,
                                     state := .running } (by omega) rfl rfl hsmall hrest
        push_cast
        dsimp only at hbound
        omega

/-- A run is given out as it is, and the reader then waits for a flag, exactly when the run counts
at least one block and its blocks fit into 32 bits. -/
theorem calls_run_iff
    (answer : H → (x : X) → Option (Reply x × H)) (closed : Bool) {tr : DeflatedTokenReader F}
    (hs : tr.state = .idle) (hsaved : tr.savedFlag = none) (h0 : 0 ≤ tr.rxToken)
    {part rest : List UInt8} {idx : FrameIndex} {n : ℕ} (hf : IsFrame part (.blocks idx (some n)))
    {w : Endpoint H UInt8} (hin : w.input = part ++ rest) :
  (∃ tr', Calls answer closed tr w
      (((TokenFrame.blocks idx (some n)).blockList tr.rxToken).map fun i => some (.blockMatch i))
      tr' { w with input := rest } ∧ tr'.state = .idle ∧ tr'.savedFlag = none) ↔
    n ≠ 0 ∧ idx.start tr.rxToken + n < 2147483648
  := by
  obtain ⟨hge, hn⟩ := hf.run_range h0
  have hlist : ((TokenFrame.blocks idx (some n)).blockList tr.rxToken).map
      (fun i => some (Token.blockMatch i)) = some (.blockMatch (idx.start tr.rxToken)) ::
      (List.range n).map fun i : ℕ => some (.blockMatch (idx.start tr.rxToken + 1 + i)) := by
    simp only [TokenFrame.blockList, Option.getD_some, add_comm 1 n, List.map_map]
    apply tokens_run
  have hcall := reads_run answer tr hs hsaved hf closed w rest hin
  rw [hlist]
  constructor
  · rintro ⟨tr', hcalls, hend, -⟩
    obtain ⟨tr₀, tr₁, w₁, h₁, h₂, h₃, h₄, hfirst, hrest⟩ := hcalls.cons_inv
    obtain ⟨heq, rfl⟩ := hfirst.unique
      (reads_run answer tr₀ (h₁.trans hs) (h₂.trans hsaved) hf closed w rest hin)
    obtain ⟨htok, rfl⟩ := Prod.mk.inj heq
    rw [h₃] at htok hrest
    have hstart : wrapI32 (idx.start tr.rxToken) = idx.start tr.rxToken :=
      Token.blockMatch.inj (Option.some.inj htok)
    have hsmall := (isI32_wrapI32 (idx.start tr.rxToken)).2
    rw [hstart] at hrest hsmall
    constructor
    · rintro rfl
      rw [hrest.nil_inv] at hend
      cases hend
    · exact Calls.running_lt { tr₀ with rxToken := idx.start tr.rxToken, rxRun := n,
                                        state := .running } hn rfl rfl hsmall hrest
  · rintro ⟨hne, hlt⟩
    have hstart : wrapI32 (idx.start tr.rxToken) = idx.start tr.rxToken :=
      wrapI32_of_isI32 ⟨by omega, by omega⟩
    rw [hstart] at hcall
    obtain ⟨m, rfl⟩ := Nat.exists_eq_succ_of_ne_zero hne
    obtain ⟨tr', hcalls, hend⟩ := calls_running answer closed
      { tr with rxToken := idx.start tr.rxToken, rxRun := (m + 1 : ℕ), state := .running }
      (n := m) rfl hsaved (by push_cast; rfl) (by omega) hge (by push_cast at hlt; exact hlt)
      { w with input := rest }
    exact ⟨tr', .read hcall hcalls, hend⟩

/-! ### The blocks of a stream are bounded -/

/-- The frames of a stream that is a single run from the last block on. -/
theorem frames_single
    {a b : UInt8} {pre rest : List UInt8} {fs : List TokenFrame} (h : IsFrames pre fs)
    (hpre : [tokenrunRel, a, b] = pre ++ rest) :
  pre = [] ∧ fs = [] ∨
    rest = [] ∧ fs = [.blocks (.relative 0) (some (ofLeBytes [a, b]))]
  := by
  induction h generalizing rest with
  | nil => exact .inl ⟨rfl, rfl⟩
  | @snoc pre part fs f h hf ih =>
      rw [List.append_assoc] at hpre
      rcases ih hpre with ⟨rfl, rfl⟩ | ⟨hrest, -⟩
      · right
        rw [List.nil_append] at hpre
        cases hf with
        | eof => cases hpre
        | deflated hflag hlen =>
            cases (List.cons.inj hpre).1
            cases hflag
        | @relative flag bs count hflag hcount =>
            obtain ⟨rfl, hbs⟩ := List.cons.inj hpre
            cases hcount with
            | none hbit => cases hbit
            | some hbit hlen =>
                have happ : [a, b] ++ [] = bs ++ rest := hbs
                have hlen' : [a, b].length = bs.length := hlen.symm
                obtain ⟨rfl, rfl⟩ := List.append_inj happ hlen'
                exact ⟨rfl, rfl⟩
        | absolute hend hdata hflag =>
            cases (List.cons.inj hpre).1
            cases hflag
      · rw [List.append_eq_nil_iff] at hrest
        obtain ⟨rfl, -⟩ := hrest
        cases hf

/-- A run is given out as it is exactly when it counts at least one block and its blocks fit into
32 bits. When all frames of a stream are such, the caller is given the blocks of the frames,
whatever calls it makes. -/
theorem blocks_bounded
    (answer : H → (x : X) → Option (Reply x × H)) (closed : Bool) (F : Flate) :
  (∀ (tr : DeflatedTokenReader F) (part rest : List UInt8) (idx : FrameIndex) (n : ℕ)
      (w : Endpoint H UInt8),
    tr.state = .idle → tr.savedFlag = none → 0 ≤ tr.rxToken →
    IsFrame part (.blocks idx (some n)) → w.input = part ++ rest →
    ((∃ tr', Calls answer closed tr w
        (((TokenFrame.blocks idx (some n)).blockList tr.rxToken).map fun i => some (.blockMatch i))
        tr' { w with input := rest } ∧ tr'.state = .idle ∧ tr'.savedFlag = none) ↔
      n ≠ 0 ∧ idx.start tr.rxToken + n < 2147483648)) ∧
  ∀ bs, SoundStream bs → Bounded answer closed F bs
  := ⟨fun _ _ _ _ _ _ hs hsaved h0 hf hin => calls_run_iff answer closed hs hsaved h0 hf hin,
    fun _ hsound => bounded_of_sound hsound⟩

theorem blocks_bounded_two :
  (∃ tr', Calls (fun _ _ => none : Unit → Unit → Option (Unit × Unit)) true
      { new StoredFlate.codec with state := .idle } ⟨(), [tokenrunRel, 1, 0], [], []⟩
      [some (.blockMatch 0), some (.blockMatch 1)] tr' ⟨(), [], [], []⟩ ∧
    tr'.state = .idle ∧ tr'.savedFlag = none) ∧
  Bounded (fun _ _ => none : Unit → Unit → Option (Unit × Unit)) true StoredFlate.codec
    [tokenrunRel, 1, 0]
  := by
  obtain ⟨hrun, hstream⟩ := blocks_bounded (fun _ _ => none : Unit → Unit → Option (Unit × Unit))
    true StoredFlate.codec
  have hframe : IsFrame [tokenrunRel, 1, 0] (.blocks (.relative 0) (some 1)) :=
    .relative (by decide) (.some (by decide) rfl)
  constructor
  · have h := (hrun { new StoredFlate.codec with state := .idle } [tokenrunRel, 1, 0] []
      (.relative 0) 1 ⟨(), [tokenrunRel, 1, 0], [], []⟩ rfl rfl (le_refl 0) hframe rfl).mpr
      ⟨by decide, by decide⟩
    exact h
  · apply hstream
    intro fs f pre rest hframes hpre
    rcases frames_single hframes hpre with ⟨-, hfs⟩ | ⟨-, hfs⟩
    · cases List.append_ne_nil_of_right_ne_nil fs (List.cons_ne_nil f []) hfs
    · have happ : fs ++ [f] = [] ++ [.blocks (.relative 0) (some (ofLeBytes [1, 0]))] := hfs
      obtain ⟨rfl, heq⟩ := List.append_inj' happ rfl
      obtain rfl := List.singleton_inj.mp heq
      exact ⟨by decide, by decide⟩

/-- A run with the count field zero is never over. -/
theorem not_bounded_zero :
  ¬ Bounded (fun _ _ => none : Unit → Unit → Option (Unit × Unit)) true StoredFlate.codec
    [tokenrunRel, 0, 0]
  := by
  intro h
  have hframe : IsFrame [tokenrunRel, 0, 0] (.blocks (.relative 0) (some 0)) :=
    .relative (by decide) (.some (by decide) rfl)
  have hfirst := reads_run (fun _ _ => none : Unit → Unit → Option (Unit × Unit))
    { new StoredFlate.codec with state := .idle } rfl rfl hframe true
    ⟨(), [tokenrunRel, 0, 0], [], []⟩ [] rfl
  have hinit : Proc.Returns (fun _ _ => none : Unit → Unit → Option (Unit × Unit)) true
      (step (new StoredFlate.codec) : Session _ _) ⟨(), [tokenrunRel, 0, 0], [], []⟩
      (.inl { new StoredFlate.codec with state := .idle }) ⟨(), [tokenrunRel, 0, 0], [], []⟩ :=
    Proc.returns_pure _ _
  obtain ⟨fs, pre, pend, hframes, hstream, hblocks, -⟩ := h _ _ _ _ rfl
    (.read (Proc.returns_loop_again hinit hfirst) (.read (returns_running _ _ rfl _) .nil))
  -- two blocks have been given out, and the only frame has one
  have htwo : ∀ a b, (blockIndices
      [some (Token.blockMatch a), some (.blockMatch b)].reduceOption).length = 2 := fun _ _ => rfl
  have hlen := congrArg List.length hblocks
  rw [length_framesBlocks, List.length_append, htwo] at hlen
  rcases frames_single hframes hstream with ⟨-, rfl⟩ | ⟨-, rfl⟩
  · rw [List.map_nil, List.sum_nil] at hlen
    omega
  · have hone : ([TokenFrame.blocks (.relative 0) (some (ofLeBytes [0, 0]))].map
        TokenFrame.size).sum = 1 := by decide
    rw [hone] at hlen
    omega

end DeflatedTokenReader
