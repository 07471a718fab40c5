import RsyncRs.Delta.DeflateOutline
import RsyncRs.Delta.StoredFlate

/-!
# When deflated tokens survive the round trip

The writer closes a run when it flushes literal bytes, and the run encoder does not take
notice of that: when the next block does not continue the closed run, it is sent again, and
when it does, the block is added to a run that is no longer open. The calls are therefore
read back exactly when no literal bytes are sent between two blocks.
-/

variable {X : Type} {Reply : X → Type} {H : Type}
  {answer : H → (x : X) → Option (Reply x × H)} {F : Flate} {L : F.Laws}

/-! ### Literal bytes between blocks -/

/-- No block comes after literal bytes. -/
def LiteralsLast (calls : List DeflateCall) : Prop :=
  ∀ pre data post, calls = pre ++ .literal data :: post → data ≠ [] → callBlocks post = []

/-- Literal bytes come before all blocks or after all blocks. -/
def LiteralsOutside (calls : List DeflateCall) : Prop :=
  ∀ pre data post, calls = pre ++ .literal data :: post → data ≠ [] →
    callBlocks pre = [] ∨ callBlocks post = []

/-- The indices of the blocks are not negative and have successors in 32 bits. -/
def DeflateCall.Sendable : DeflateCall → Prop
  | .literal _ => True
  | .blockMatch idx _ => 0 ≤ idx ∧ idx < 2147483647

theorem literalsLast_nil :
  LiteralsLast []
  := by
  intro pre data post h
  simp at h

theorem literalsLast_literal
    (data : List UInt8) (calls : List DeflateCall) :
  LiteralsLast (.literal data :: calls) ↔ (data ≠ [] → callBlocks calls = []) ∧
    LiteralsLast calls
  := by
  constructor
  · intro h
    constructor
    · apply h [] data calls rfl
    · intro pre data' post he
      apply h (.literal data :: pre) data' post
      rw [he]
      rfl
  · rintro ⟨h, hl⟩ pre data' post he
    cases pre with
    | nil =>
        obtain ⟨hd, rfl⟩ := List.cons.inj he
        cases hd
        apply h
    | cons call pre =>
        obtain ⟨-, rfl⟩ := List.cons.inj he
        apply hl pre data' post rfl

theorem literalsLast_blockMatch
    (idx : ℤ) (bytes : List UInt8) (calls : List DeflateCall) :
  LiteralsLast (.blockMatch idx bytes :: calls) ↔ LiteralsLast calls
  := by
  constructor
  · intro h pre data post he
    apply h (.blockMatch idx bytes :: pre) data post
    rw [he]
    rfl
  · rintro hl pre data post he
    cases pre with
    | nil => cases he
    | cons call pre =>
        obtain ⟨-, rfl⟩ := List.cons.inj he
        apply hl pre data post rfl

theorem literalsOutside_nil :
  LiteralsOutside []
  := by
  intro pre data post h
  simp at h

theorem literalsOutside_literal
    (data : List UInt8) (calls : List DeflateCall) :
  LiteralsOutside (.literal data :: calls) ↔ LiteralsOutside calls
  := by
  constructor
  · intro h pre data' post he
    apply h (.literal data :: pre) data' post
    rw [he]
    rfl
  · intro h pre data' post he hne
    cases pre with
    | nil => apply Or.inl rfl
    | cons call pre =>
        obtain ⟨rfl, rfl⟩ := List.cons.inj he
        apply h pre data' post rfl hne

theorem literalsOutside_blockMatch
    (idx : ℤ) (bytes : List UInt8) (calls : List DeflateCall) :
  LiteralsOutside (.blockMatch idx bytes :: calls) ↔ LiteralsLast calls
  := by
  constructor
  · intro h pre data post he hne
    have h' := h (.blockMatch idx bytes :: pre) data post (by rw [he]; rfl) hne
    rcases h' with h' | h'
    · cases h'
    · apply h'
  · intro h pre data post he hne
    cases pre with
    | nil => cases he
    | cons call pre =>
        obtain ⟨-, rfl⟩ := List.cons.inj he
        apply Or.inr (h pre data post rfl hne)

/-! ### The run encoder -/

theorem pieceBlocks_append
    (ps qs : List Piece) :
  pieceBlocks (ps ++ qs) = pieceBlocks ps ++ pieceBlocks qs
  := by
  induction ps with
  | nil => rfl
  | cons p ps ih => cases p <;> simp [pieceBlocks, ih]

/-- The blocks of the calls go through the deflate stream in order. -/
theorem pieceBlocks_pieces
    (run : RunState) (pending : List UInt8) (calls : List DeflateCall) :
  pieceBlocks (pieces run pending calls) = callBlocks calls
  := by
  have hopen : ∀ run : RunState, pieceBlocks run.openPieces = [] := by
    intro run
    unfold RunState.openPieces
    split <;> rfl
  have htoken : ∀ (run : RunState) idx, pieceBlocks (run.tokenPieces idx) = [] := by
    intro run idx
    unfold RunState.tokenPieces
    split <;> rfl
  induction calls generalizing run pending with
  | nil =>
      rw [pieces, pieceBlocks_append, hopen]
      unfold literalPieces
      split <;> rfl
  | cons call calls ih =>
      cases call with
      | literal data => apply ih
      | blockMatch idx bytes =>
          unfold pieces
          split
          · rw [pieceBlocks_append, htoken, pieceBlocks, ih]
            rfl
          · rw [pieceBlocks_append, hopen, pieceBlocks, pieceBlocks_append, htoken, pieceBlocks, ih]
            rfl

namespace RunState

/-- The run encoder has not been used, or its run is valid. -/
def Fine (run : RunState) : Prop :=
  run.lastToken = -1 ∧ run.runOpen = false ∧ run.lastRunEnd = 0 ∨ run.Valid

theorem Valid.last_ne
    {run : RunState} (h : run.Valid) :
  run.lastToken ≠ -1
  := by
  have := h.start_nonneg
  have := h.start_le
  omega

theorem Valid.closed
    {run : RunState} (h : run.Valid) :
  run.closed.Valid
  := by
  obtain ⟨h1, h2, h3, h4, -, -⟩ := h
  constructor
  · apply h1
  · apply h2
  · apply h3
  · apply h4
  · apply le_trans h1 h2
  · apply h3

theorem valid_started
    {run : RunState} (h₁ : 0 ≤ run.lastRunEnd) (h₂ : run.lastRunEnd < 2147483647) {idx : ℤ}
    (hidx : 0 ≤ idx ∧ idx < 2147483647) :
  (run.started idx).Valid
  := by
  constructor
  · apply hidx.1
  · apply le_refl
  · apply hidx.2
  · unfold started
    dsimp only
    omega
  · apply h₁
  · apply h₂

/-- A block that continues the run is the next one. -/
theorem Valid.continues
    {run : RunState} (h : run.Valid) {idx : ℤ} (hc : run.Continues idx) :
  idx = run.lastToken + 1 ∧ idx < run.runStart + 65536
  := by
  obtain ⟨h1, h2, h3, h4, -, -⟩ := h
  obtain ⟨hc₁, hc₂⟩ := hc
  unfold wrapI32 at hc₁ hc₂
  omega

theorem Valid.extend
    {run : RunState} (h : run.Valid) {idx : ℤ} (hidx : 0 ≤ idx ∧ idx < 2147483647)
    (hc : run.Continues idx) :
  ({ run with lastToken := idx } : RunState).Valid
  := by
  obtain ⟨he, hlt⟩ := h.continues hc
  obtain ⟨h1, h2, h3, h4, h5, h6⟩ := h
  constructor
  · apply h1
  · dsimp only
    omega
  · apply hidx.2
  · apply hlt
  · apply h5
  · apply h6

theorem blocksFrom_append
    (first : ℤ) (n : ℕ) :
  blocksFrom first (n + 1) = blocksFrom first n ++ [first + n]
  := by
  induction n generalizing first with
  | zero => simp [blocksFrom]
  | succ n ih =>
      rw [blocksFrom, ih, blocksFrom, List.cons_append]
      congr 3
      push_cast
      ring

/-- A block that continues the run is added to its blocks. -/
theorem Valid.blocks_extend
    {run : RunState} (h : run.Valid) {idx : ℤ} (hc : run.Continues idx) :
  ({ run with lastToken := idx } : RunState).blocks = run.blocks ++ [idx] ∧
    ({ run with lastToken := idx } : RunState).count = run.count + 1
  := by
  obtain ⟨he, -⟩ := h.continues hc
  have h2 := h.start_le
  have hcount : ({ run with lastToken := idx } : RunState).count = run.count + 1 := by
    unfold count
    dsimp only
    omega
  refine ⟨?_, hcount⟩
  have hlast : run.runStart + run.count = idx := by
    unfold count
    omega
  rw [blocks, hcount, blocksFrom_append, hlast]
  rfl

theorem blocks_started
    (run : RunState) (idx : ℤ) :
  (run.started idx).blocks = [idx] ∧ (run.started idx).count = 1
  := by
  have hcount : (run.started idx).count = 1 := by
    unfold count started
    dsimp only
    omega
  refine ⟨?_, hcount⟩
  rw [blocks, hcount]
  rfl

theorem Valid.blocks_cons
    {run : RunState} (h : run.Valid) :
  ∃ bs, run.blocks = run.runStart :: bs
  := by
  have h2 := h.start_le
  have hcount : run.count = run.count - 1 + 1 := by
    unfold count
    omega
  rw [blocks, hcount]
  use blocksFrom (run.runStart + 1) (run.count - 1)
  rfl

theorem Fine.flushed
    {run : RunState} (h : run.Fine) :
  run.flushed.Fine
  := by
  unfold RunState.flushed
  rcases h with ⟨h1, h2, h3⟩ | h
  · rw [if_neg (by simp [h2])]
    apply Or.inl ⟨h1, h2, h3⟩
  · split
    · apply Or.inr h.closed
    · apply Or.inr h

theorem Fine.afterToken
    {run : RunState} (h : run.Fine) {idx : ℤ} (hidx : 0 ≤ idx ∧ idx < 2147483647) :
  (run.afterToken idx).Fine
  := by
  apply Or.inr
  unfold RunState.afterToken
  rcases h with ⟨h1, -, h3⟩ | h
  · rw [if_pos h1]
    apply valid_started _ _ hidx <;> omega
  · rw [if_neg h.last_ne]
    by_cases hc : run.Continues idx
    · rw [if_pos hc]
      apply h.extend hidx hc
    · rw [if_neg hc]
      apply valid_started h.closed.end_nonneg h.closed.end_lt hidx

end RunState

theorem chained_openPieces
    {run : RunState} (h : run.Fine) {ps : List Piece} (hps : Chained run.flushed.lastRunEnd ps) :
  Chained run.lastRunEnd (run.openPieces ++ ps)
  := by
  unfold RunState.openPieces
  unfold RunState.flushed at hps
  by_cases ho : run.runOpen = true
  · rw [if_pos ho] at hps ⊢
    rcases h with ⟨-, h, -⟩ | h
    · rw [h] at ho
      cases ho
    · apply And.intro h ⟨rfl, hps⟩
  · rw [if_neg ho] at hps ⊢
    apply hps

theorem chained_tokenPieces
    {run : RunState} (h : run.Fine) {idx : ℤ} {ps : List Piece}
    (hps : Chained (run.afterToken idx).lastRunEnd ps) :
  Chained run.lastRunEnd (run.tokenPieces idx ++ ps)
  := by
  unfold RunState.tokenPieces
  unfold RunState.afterToken at hps
  rcases h with ⟨h, -, -⟩ | h
  · rw [if_pos h] at hps
    rw [if_pos (.inl h)]
    apply hps
  · rw [if_neg h.last_ne] at hps
    by_cases hc : run.Continues idx
    · rw [if_pos hc] at hps
      rw [if_pos (.inr hc)]
      apply hps
    · rw [if_neg hc] at hps
      rw [if_neg (not_or.mpr ⟨h.last_ne, hc⟩)]
      apply And.intro h ⟨rfl, hps⟩

/-- Every run that is sent is valid and refers to the end of the run before it. -/
theorem chained_pieces
    {run : RunState} (h : run.Fine) (pending : List UInt8) {calls : List DeflateCall}
    (hcalls : ∀ call ∈ calls, call.Sendable) :
  Chained run.lastRunEnd (pieces run pending calls)
  := by
  induction calls generalizing run pending with
  | nil =>
      rw [pieces]
      apply chained_openPieces h
      unfold literalPieces
      split <;> trivial
  | cons call calls ih =>
      have hrest : ∀ call ∈ calls, call.Sendable := fun c hc =>
        hcalls c (List.mem_cons_of_mem _ hc)
      cases call with
      | literal data => apply ih h _ hrest
      | blockMatch idx bytes =>
          have hidx : 0 ≤ idx ∧ idx < 2147483647 := hcalls _ List.mem_cons_self
          unfold pieces
          split
          · apply chained_tokenPieces h
            apply ih (h.afterToken hidx) _ hrest
          · apply chained_openPieces h
            apply chained_tokenPieces h.flushed
            apply ih (h.flushed.afterToken hidx) _ hrest

/-! ### Literal bytes outside are read back -/

/-- Calls without blocks only add to the pending literal bytes. -/
theorem pieces_of_no_blocks
    (run : RunState) (pending : List UInt8) {calls : List DeflateCall}
    (h : callBlocks calls = []) :
  ∃ data, callItems calls = data.map .inl ∧
    pieces run pending calls = run.openPieces ++ (literalPieces (pending ++ data) ++ [.eof])
  := by
  induction calls generalizing pending with
  | nil =>
      use [], rfl
      rw [List.append_nil]
      rfl
  | cons call calls ih =>
      cases call with
      | literal data =>
          obtain ⟨rest, hitems, hpieces⟩ := ih (pending ++ data) h
          use data ++ rest
          constructor
          · rw [List.map_append, ← hitems]
            rfl
          · rw [pieces, hpieces, List.append_assoc]
      | blockMatch idx bytes => cases h

theorem flagged_pieces
    {run : RunState} (h : run.Valid) (ho : run.runOpen = true) (pending : List UInt8)
    {calls : List DeflateCall} (hcalls : ∀ call ∈ calls, call.Sendable) :
  DeflatedTokenReader.Flagged (pieces run pending calls)
  := by
  induction calls generalizing run pending with
  | nil =>
      rw [pieces, RunState.openPieces, if_pos ho]
      apply h
  | cons call calls ih =>
      have hrest : ∀ call ∈ calls, call.Sendable := fun c hc =>
        hcalls c (List.mem_cons_of_mem _ hc)
      cases call with
      | literal data => apply ih h ho _ hrest
      | blockMatch idx bytes =>
          have hidx : 0 ≤ idx ∧ idx < 2147483647 := hcalls _ List.mem_cons_self
          unfold pieces
          split
          · rw [RunState.tokenPieces, RunState.afterToken, if_neg h.last_ne]
            by_cases hc : run.Continues idx
            · rw [if_pos (.inr hc), if_pos hc]
              apply ih (h.extend hidx hc) ho _ hrest
            · rw [if_neg (not_or.mpr ⟨h.last_ne, hc⟩)]
              apply h
          · rw [RunState.openPieces, if_pos ho]
            apply h

theorem flagged_eof :
  DeflatedTokenReader.Flagged [.eof]
  := trivial

theorem DeflatedTokenReader.Readable.run_last
    {run : RunState} (h : run.Valid) {ps : List Piece} {its : List (UInt8 ⊕ ℤ)}
    (hr : Readable run.lastToken 0 ps its) :
  Readable run.lastRunEnd run.count (.run run :: ps) (run.blocks.map .inr ++ its)
  := Readable.run h hr

open DeflatedTokenReader in
/-- From an open run on, calls with literal bytes after all blocks are read back. -/
theorem readable_open
    {run : RunState} (h : run.Valid) (ho : run.runOpen = true) {calls : List DeflateCall}
    (hcalls : ∀ call ∈ calls, call.Sendable) (hl : LiteralsLast calls) :
  Readable run.lastRunEnd run.count (pieces run [] calls) (run.blocks.map .inr ++ callItems calls)
  := by
  induction calls generalizing run with
  | nil =>
      rw [pieces, RunState.openPieces, if_pos ho]
      exact Readable.run_last h Readable.eof
  | cons call calls ih =>
      have hrest : ∀ call ∈ calls, call.Sendable := fun c hc =>
        hcalls c (List.mem_cons_of_mem _ hc)
      cases call with
      | literal data =>
          obtain ⟨hlast, hl'⟩ := (literalsLast_literal data calls).mp hl
          by_cases hd : data = []
          · subst hd
            apply ih h ho hrest hl'
          · obtain ⟨rest, hitems, hpieces⟩ := pieces_of_no_blocks run data (hlast hd)
            have hne : data ++ rest ≠ [] := by simp [hd]
            have hall : callItems (.literal data :: calls) = (data ++ rest).map .inl ++ [] := by
              rw [List.append_nil, List.map_append, ← hitems]
              rfl
            rw [pieces, List.nil_append, hpieces, RunState.openPieces, if_pos ho, literalPieces,
              if_neg hne, hall]
            have hend : Readable run.lastToken 0 [.literal (data ++ rest), .eof]
                ((data ++ rest).map .inl ++ []) := by
              apply Readable.literal flagged_eof
              apply Readable.eof
            exact Readable.run_last h hend
      | blockMatch idx bytes =>
          have hidx : 0 ≤ idx ∧ idx < 2147483647 := hcalls _ List.mem_cons_self
          have hl' := (literalsLast_blockMatch idx bytes calls).mp hl
          rw [pieces, if_pos rfl, RunState.tokenPieces, RunState.afterToken, if_neg h.last_ne]
          by_cases hc : run.Continues idx
          · obtain ⟨hblocks, hcount⟩ := h.blocks_extend hc
            have hread := ih (h.extend hidx hc) ho hrest hl'
            rw [hblocks, hcount, List.map_append, List.append_assoc] at hread
            rw [if_pos (.inr hc), if_pos hc]
            apply Readable.block hread
          · have hv := RunState.valid_started h.closed.end_nonneg h.closed.end_lt hidx
            obtain ⟨hblocks, hcount⟩ := RunState.blocks_started run.closed idx
            have hread := ih hv rfl hrest hl'
            rw [hblocks, hcount] at hread
            rw [if_neg (not_or.mpr ⟨h.last_ne, hc⟩), if_neg hc]
            exact Readable.run_last h (Readable.block hread)

open DeflatedTokenReader in
/-- Calls with literal bytes before or after all blocks are read back. -/
theorem readable_start
    (pending : List UInt8) {calls : List DeflateCall} (hcalls : ∀ call ∈ calls, call.Sendable)
    (hl : LiteralsOutside calls) :
  Readable 0 0 (pieces {} pending calls) (pending.map .inl ++ callItems calls)
  := by
  induction calls generalizing pending with
  | nil =>
      rw [pieces, literalPieces]
      by_cases hp : pending = []
      · subst hp
        apply Readable.eof
      · rw [if_neg hp]
        apply Readable.literal flagged_eof
        apply Readable.eof
  | cons call calls ih =>
      have hrest : ∀ call ∈ calls, call.Sendable := fun c hc =>
        hcalls c (List.mem_cons_of_mem _ hc)
      cases call with
      | literal data =>
          have hl' := (literalsOutside_literal data calls).mp hl
          have hread := ih (pending ++ data) hrest hl'
          rw [List.map_append, List.append_assoc] at hread
          apply hread
      | blockMatch idx bytes =>
          have hidx : 0 ≤ idx ∧ idx < 2147483647 := hcalls _ List.mem_cons_self
          have hl' := (literalsOutside_blockMatch idx bytes calls).mp hl
          have hv : (RunState.started {} idx).Valid :=
            RunState.valid_started (le_refl 0) (by decide) hidx
          obtain ⟨hblocks, hcount⟩ := RunState.blocks_started {} idx
          have hread := readable_open hv rfl hrest hl'
          rw [hblocks, hcount] at hread
          unfold pieces
          split
          · next hp =>
            subst hp
            apply Readable.block hread
          · apply Readable.literal
            · apply flagged_pieces hv rfl _ hrest
            · apply Readable.block hread

/-! ### Literal bytes between blocks are not read back -/

/-- Bytes before a block, and the block, can be told from what follows. -/
theorem bytes_block_inj
    {xs ys : List UInt8} {i j : ℤ} {as bs : List (UInt8 ⊕ ℤ)}
    (h : xs.map .inl ++ .inr i :: as = ys.map .inl ++ .inr j :: bs) :
  xs = ys ∧ i = j ∧ as = bs
  := by
  induction xs generalizing ys with
  | nil =>
      cases ys with
      | nil => simpa using h
      | cons y ys => simp at h
  | cons x xs ih =>
      cases ys with
      | nil => simp at h
      | cons y ys =>
          simp only [List.map_cons, List.cons_append, List.cons.injEq, Sum.inl.injEq] at h
          obtain ⟨rfl, h⟩ := h
          obtain ⟨rfl, rfl, rfl⟩ := ih h
          apply And.intro rfl ⟨rfl, rfl⟩

/-- What an open run sends comes first. -/
theorem pieces_of_open
    {run : RunState} (ho : run.runOpen = true) {pending : List UInt8} (hp : pending ≠ [])
    (calls : List DeflateCall) :
  ∃ ps, pieces run pending calls = .run run :: ps
  := by
  induction calls generalizing pending with
  | nil =>
      rw [pieces, RunState.openPieces, if_pos ho]
      use literalPieces pending ++ [.eof]
      rfl
  | cons call calls ih =>
      cases call with
      | literal data => apply ih (by simp [hp])
      | blockMatch idx bytes =>
          rw [pieces, if_neg hp, RunState.openPieces, if_pos ho]
          exact ⟨_, rfl⟩

/-- Some blocks ahead of others can be moved behind as many of them. -/
theorem exists_shift
    {again : List ℤ} (hne : again ≠ []) (bs : List ℤ) :
  ∃ again', again' ≠ [] ∧ ∀ its rest : List (UInt8 ⊕ ℤ),
    again.map .inr ++ (bs.map .inr ++ its) = bs.map .inr ++ rest → again'.map .inr ++ its = rest
  := by
  have hpos : 0 < again.length := List.length_pos_iff.mpr hne
  use (again ++ bs).drop bs.length
  constructor
  · rw [← List.length_pos_iff, List.length_drop, List.length_append]
    omega
  · intro its rest h
    rw [← List.append_assoc, ← List.map_append] at h
    have hdrop := congrArg (List.drop bs.length) h
    rw [List.drop_append_of_le_length (by simp), ← List.map_drop] at hdrop
    rw [hdrop]
    simp

/-- When a run has been sent twice, the blocks after it come too late. -/
theorem not_outline_of_repeated
    {run : RunState} (h : run.Valid) (ho : run.runOpen = true) {calls : List DeflateCall}
    (hcalls : ∀ call ∈ calls, call.Sendable) {its : List (UInt8 ⊕ ℤ)}
    (hout : Outline (pieces run [] calls) its) {again : List ℤ} (hne : again ≠ []) :
  again.map .inr ++ its ≠ run.blocks.map .inr ++ callItems calls
  := by
  induction calls generalizing run its again with
  | nil =>
      rw [pieces, RunState.openPieces, if_pos ho] at hout
      intro he
      cases hout with
      | run hout =>
          cases hout with
          | eof =>
              have hlen := congrArg List.length he
              have hpos : 0 < again.length := List.length_pos_iff.mpr hne
              simp [callItems] at hlen
              apply hne hlen
  | cons call calls ih =>
      have hrest : ∀ call ∈ calls, call.Sendable := fun c hc =>
        hcalls c (List.mem_cons_of_mem _ hc)
      cases call with
      | literal data =>
          by_cases hd : data = []
          · subst hd
            apply ih h ho hrest hout hne
          · rw [pieces, List.nil_append] at hout
            obtain ⟨ps, hps⟩ := pieces_of_open ho hd calls
            rw [hps] at hout
            intro he
            cases hout with
            | run _ =>
                obtain ⟨again', hne', hshift⟩ := exists_shift hne run.blocks
                have hno := hshift _ _ he
                obtain ⟨b, again', rfl⟩ := List.exists_cons_of_ne_nil hne'
                obtain ⟨x, data, rfl⟩ := List.exists_cons_of_ne_nil hd
                simp [callItems, DeflateCall.items] at hno
      | blockMatch idx bytes =>
          have hidx : 0 ≤ idx ∧ idx < 2147483647 := hcalls _ List.mem_cons_self
          rw [pieces, if_pos rfl, RunState.tokenPieces, RunState.afterToken,
            if_neg h.last_ne] at hout
          by_cases hc : run.Continues idx
          · obtain ⟨hblocks, -⟩ := h.blocks_extend hc
            rw [if_pos (.inr hc), if_pos hc] at hout
            cases hout with
            | block hout =>
                have hno := ih (h.extend hidx hc) ho hrest hout hne
                rw [hblocks, List.map_append, List.append_assoc] at hno
                apply hno
          · rw [if_neg (not_or.mpr ⟨h.last_ne, hc⟩), if_neg hc] at hout
            intro he
            cases hout with
            | run hout =>
                cases hout with
                | block hout =>
                    obtain ⟨again', hne', hshift⟩ := exists_shift hne run.blocks
                    have hv := RunState.valid_started h.closed.end_nonneg h.closed.end_lt hidx
                    have hno := ih hv rfl hrest hout hne'
                    rw [(RunState.blocks_started run.closed idx).1] at hno
                    apply hno (hshift _ _ he)

/-- Blocks that are added to a run that is closed are lost, or the whole run is sent
again. -/
theorem outline_of_closed
    {run : RunState} (h : run.Valid) (ho : run.runOpen = false) {pending : List UInt8}
    {calls : List DeflateCall} (hcalls : ∀ call ∈ calls, call.Sendable)
    {its : List (UInt8 ⊕ ℤ)} (hout : Outline (pieces run pending calls) its) :
  ∃ given : List UInt8, its = given.map .inl ∨
    ∃ rest, its = given.map .inl ++ .inr run.runStart :: rest
  := by
  induction calls generalizing run pending its with
  | nil =>
      rw [pieces, RunState.openPieces, if_neg (by simp [ho]), List.nil_append,
        literalPieces] at hout
      split at hout
      · cases hout
        use [], .inl rfl
      · cases hout with
        | literal given hout =>
            cases hout
            use given
            apply Or.inl (List.append_nil _)
  | cons call calls ih =>
      have hrest : ∀ call ∈ calls, call.Sendable := fun c hc =>
        hcalls c (List.mem_cons_of_mem _ hc)
      cases call with
      | literal data => apply ih h ho hrest hout
      | blockMatch idx bytes =>
          have hidx : 0 ≤ idx ∧ idx < 2147483647 := hcalls _ List.mem_cons_self
          have htoken : ∀ its, Outline (run.tokenPieces idx ++
              .block bytes :: pieces (run.afterToken idx) [] calls) its →
              ∃ given : List UInt8, its = given.map .inl ∨
                ∃ rest, its = given.map .inl ++ .inr run.runStart :: rest := by
            intro its hout
            rw [RunState.tokenPieces, RunState.afterToken, if_neg h.last_ne] at hout
            by_cases hc : run.Continues idx
            · rw [if_pos (.inr hc), if_pos hc] at hout
              cases hout with
              | block hout =>
                  apply ih (h.extend hidx hc) ho hrest hout
            · rw [if_neg (not_or.mpr ⟨h.last_ne, hc⟩), if_neg hc] at hout
              obtain ⟨bs, hbs⟩ := h.blocks_cons
              cases hout with
              | run hout =>
                  use [], .inr ⟨_, by rw [hbs]; rfl⟩
          unfold pieces at hout
          split at hout
          · apply htoken its hout
          · rw [RunState.openPieces, if_neg (by simp [ho]), RunState.flushed,
              if_neg (by simp [ho])] at hout
            cases hout with
            | literal given hout =>
                obtain ⟨given', rfl | ⟨rest, rfl⟩⟩ := htoken _ hout
                · use given ++ given'
                  apply Or.inl
                  rw [List.map_append]
                · use given ++ given'
                  apply Or.inr
                  use rest
                  rw [List.map_append, List.append_assoc]

/-- After literal bytes that have closed a run, no block is read back where it was sent. -/
theorem no_blocks_of_outline
    {run : RunState} (h : run.Valid) (ho : run.runOpen = true) {pending : List UInt8}
    (hp : pending ≠ []) {calls : List DeflateCall} (hcalls : ∀ call ∈ calls, call.Sendable)
    (hout : Outline (pieces run pending calls)
      (run.blocks.map .inr ++ (pending.map .inl ++ callItems calls))) :
  callBlocks calls = []
  := by
  induction calls generalizing pending with
  | nil => rfl
  | cons call calls ih =>
      have hrest : ∀ call ∈ calls, call.Sendable := fun c hc =>
        hcalls c (List.mem_cons_of_mem _ hc)
      cases call with
      | literal data =>
          apply ih (by simp [hp] : pending ++ data ≠ []) hrest
          rw [List.map_append, List.append_assoc]
          apply hout
      | blockMatch idx bytes =>
          exfalso
          have hidx : 0 ≤ idx ∧ idx < 2147483647 := hcalls _ List.mem_cons_self
          rw [pieces, if_neg hp, RunState.openPieces, if_pos ho, RunState.flushed, if_pos ho,
            RunState.tokenPieces, RunState.afterToken, if_neg h.closed.last_ne] at hout
          obtain ⟨bs, hbs⟩ := h.blocks_cons
          generalize hits : run.blocks.map .inr ++ (pending.map .inl ++
            callItems (.blockMatch idx bytes :: calls)) = its at hout
          cases hout with
          | run hout =>
              have hlit := List.append_cancel_left hits
              cases hout with
              | literal given hout =>
                  by_cases hc : run.closed.Continues idx
                  · -- the block is added to the closed run
                    rw [if_pos (.inr hc), if_pos hc] at hout
                    obtain ⟨he, -⟩ := h.closed.continues hc
                    have hle := h.start_le
                    cases hout with
                    | block hout =>
                        obtain ⟨given', rfl | ⟨rest, rfl⟩⟩ :=
                          outline_of_closed (h.closed.extend hidx hc) rfl hrest hout
                        · rw [← List.map_append] at hlit
                          have hmem : (.inr idx : UInt8 ⊕ ℤ) ∈ (given ++ given').map .inl := by
                            rw [← hlit]
                            simp [callItems, DeflateCall.items]
                          simp at hmem
                        · rw [← List.append_assoc, ← List.map_append] at hlit
                          obtain ⟨-, hstart, -⟩ := bytes_block_inj hlit
                          have hlast : run.closed.lastToken = run.lastToken := rfl
                          have hsame : idx = run.runStart := hstart
                          omega
                  · -- the closed run is sent again
                    rw [if_neg (not_or.mpr ⟨h.closed.last_ne, hc⟩), if_neg hc] at hout
                    cases hout with
                    | run hout =>
                        cases hout with
                        | block hout =>
                            have hblocks : run.closed.blocks = run.blocks := rfl
                            rw [hblocks, hbs, callItems_blockMatch] at hlit
                            obtain ⟨-, hidx', hrest'⟩ := bytes_block_inj hlit
                            have hv := RunState.valid_started h.closed.closed.end_nonneg
                              h.closed.closed.end_lt hidx
                            have hno := not_outline_of_repeated hv rfl hrest hout
                              (by rw [hbs]; simp : run.blocks ≠ [])
                            rw [(RunState.blocks_started run.closed.closed idx).1, hbs] at hno
                            apply hno
                            rw [hrest', hidx']
                            rfl

/-- From an open run on, calls that are read back have no literal bytes before a block. -/
theorem literalsLast_of_outline
    {run : RunState} (h : run.Valid) (ho : run.runOpen = true) {calls : List DeflateCall}
    (hcalls : ∀ call ∈ calls, call.Sendable)
    (hout : Outline (pieces run [] calls) (run.blocks.map .inr ++ callItems calls)) :
  LiteralsLast calls
  := by
  induction calls generalizing run with
  | nil => apply literalsLast_nil
  | cons call calls ih =>
      have hrest : ∀ call ∈ calls, call.Sendable := fun c hc =>
        hcalls c (List.mem_cons_of_mem _ hc)
      cases call with
      | literal data =>
          rw [literalsLast_literal]
          by_cases hd : data = []
          · subst hd
            apply And.intro (fun hne => absurd rfl hne) (ih h ho hrest hout)
          · have hno := no_blocks_of_outline h ho hd hrest hout
            apply And.intro fun _ => hno
            intro pre data' post he _
            rw [he, callBlocks_append] at hno
            apply (List.append_eq_nil_iff.mp hno).2
      | blockMatch idx bytes =>
          have hidx : 0 ≤ idx ∧ idx < 2147483647 := hcalls _ List.mem_cons_self
          rw [literalsLast_blockMatch]
          rw [pieces, if_pos rfl, RunState.tokenPieces, RunState.afterToken,
            if_neg h.last_ne] at hout
          by_cases hc : run.Continues idx
          · obtain ⟨hblocks, -⟩ := h.blocks_extend hc
            rw [if_pos (.inr hc), if_pos hc] at hout
            cases hout with
            | block hout =>
                apply ih (h.extend hidx hc) ho hrest
                rw [hblocks, List.map_append, List.append_assoc]
                apply hout
          · rw [if_neg (not_or.mpr ⟨h.last_ne, hc⟩), if_neg hc] at hout
            have hv := RunState.valid_started h.closed.end_nonneg h.closed.end_lt hidx
            generalize hits : run.blocks.map .inr ++ callItems (.blockMatch idx bytes :: calls) =
              its at hout
            cases hout with
            | run hout =>
                cases hout with
                | block hout =>
                    apply ih hv rfl hrest
                    rw [(RunState.blocks_started run.closed idx).1]
                    rw [← List.append_cancel_left hits] at hout
                    apply hout

theorem outline_run
    {run : RunState} (h : run.Valid) {ps : List Piece} {its : List (UInt8 ⊕ ℤ)}
    (hout : Outline (.run run :: ps) its) :
  ∃ rest, its = .inr run.runStart :: rest
  := by
  obtain ⟨bs, hbs⟩ := h.blocks_cons
  cases hout with
  | run hout =>
      rw [hbs]
      exact ⟨_, rfl⟩

/-- An open run is the first that is read back. -/
theorem outline_of_open
    {run : RunState} (h : run.Valid) (ho : run.runOpen = true) {calls : List DeflateCall}
    (hcalls : ∀ call ∈ calls, call.Sendable) {its : List (UInt8 ⊕ ℤ)}
    (hout : Outline (pieces run [] calls) its) :
  ∃ rest, its = .inr run.runStart :: rest
  := by
  induction calls generalizing run its with
  | nil =>
      rw [pieces, RunState.openPieces, if_pos ho] at hout
      apply outline_run h hout
  | cons call calls ih =>
      have hrest : ∀ call ∈ calls, call.Sendable := fun c hc =>
        hcalls c (List.mem_cons_of_mem _ hc)
      cases call with
      | literal data =>
          by_cases hd : data = []
          · subst hd
            apply ih h ho hrest hout
          · obtain ⟨ps, hps⟩ := pieces_of_open ho hd calls
            rw [pieces, List.nil_append, hps] at hout
            apply outline_run h hout
      | blockMatch idx bytes =>
          have hidx : 0 ≤ idx ∧ idx < 2147483647 := hcalls _ List.mem_cons_self
          rw [pieces, if_pos rfl, RunState.tokenPieces, RunState.afterToken,
            if_neg h.last_ne] at hout
          by_cases hc : run.Continues idx
          · rw [if_pos (.inr hc), if_pos hc] at hout
            cases hout with
            | block hout =>
                apply ih (h.extend hidx hc) ho hrest hout
          · rw [if_neg (not_or.mpr ⟨h.last_ne, hc⟩), if_neg hc] at hout
            apply outline_run h hout

/-- Calls that are read back have their literal bytes before or after all blocks. -/
theorem literalsOutside_of_outline
    (pending : List UInt8) {calls : List DeflateCall} (hcalls : ∀ call ∈ calls, call.Sendable)
    (hout : Outline (pieces {} pending calls) (pending.map .inl ++ callItems calls)) :
  LiteralsOutside calls
  := by
  induction calls generalizing pending with
  | nil => apply literalsOutside_nil
  | cons call calls ih =>
      have hrest : ∀ call ∈ calls, call.Sendable := fun c hc =>
        hcalls c (List.mem_cons_of_mem _ hc)
      cases call with
      | literal data =>
          rw [literalsOutside_literal]
          apply ih (pending ++ data) hrest
          rw [List.map_append, List.append_assoc]
          apply hout
      | blockMatch idx bytes =>
          have hidx : 0 ≤ idx ∧ idx < 2147483647 := hcalls _ List.mem_cons_self
          have hv : (RunState.started {} idx).Valid :=
            RunState.valid_started (le_refl 0) (by decide) hidx
          rw [literalsOutside_blockMatch]
          apply literalsLast_of_outline hv rfl hrest
          rw [(RunState.blocks_started {} idx).1]
          unfold pieces at hout
          split at hout
          · next hp =>
            subst hp
            cases hout with
            | block hout => apply hout
          · generalize hits : pending.map .inl ++ callItems (.blockMatch idx bytes :: calls) =
              its at hout
            cases hout with
            | literal given hout =>
                cases hout with
                | block hout =>
                    obtain ⟨rest, rfl⟩ := outline_of_open hv rfl hrest hout
                    obtain ⟨-, -, hrest'⟩ := bytes_block_inj hits
                    rw [← hrest'] at hout
                    apply hout

/-! ### The round trip -/

/-- What a fresh writer sends for the calls, a fresh reader whose caller shows it the blocks
reads as the same bytes and blocks in the same order, and then the end of the file. -/
def RoundTrip (answer : H → (x : X) → Option (Reply x × H)) (F : Flate)
    (calls : List DeflateCall) : Prop :=
  ∃ wire toks,
    Proc.Writes answer ((DeflatedTokenWriter.new F).sendCalls calls : Session Reply Unit) wire () ∧
    Proc.Reads answer
      (DeflatedTokenReader.readTokens F (callBlocks calls) : Session Reply (List Token)) wire toks ∧
    tokenItems toks = callItems calls

theorem LiteralsOutside.roundTrip
    (L : F.Laws) {calls : List DeflateCall} (hcalls : ∀ call ∈ calls, call.Sendable)
    (h : LiteralsOutside calls) :
  RoundTrip answer F calls
  := by
  obtain ⟨wire, hw, hwire⟩ := writes_sendCalls answer (DeflatedTokenWriter.Holds.new (L := L)) calls
  have hread := readable_start [] hcalls h
  obtain ⟨toks, hr, hitems⟩ := DeflatedTokenReader.reads_readTokens answer hread hwire
  rw [pieceBlocks_pieces] at hr
  use wire, toks, hw, hr, hitems

theorem RoundTrip.literalsOutside
    (L : F.Laws) (host : H) {calls : List DeflateCall} (hcalls : ∀ call ∈ calls, call.Sendable)
    (h : RoundTrip answer F calls) :
  LiteralsOutside calls
  := by
  obtain ⟨wire, toks, hw, hr, hitems⟩ := h
  obtain ⟨wire', hw', hwire⟩ :=
    writes_sendCalls answer (DeflatedTokenWriter.Holds.new (L := L)) calls
  -- the writer sends in one way
  have hsame : wire = wire' := by
    obtain ⟨-, h⟩ := (hw' false ⟨host, [], [], []⟩).unique (hw false ⟨host, [], [], []⟩)
    simpa using h
  rw [← hsame] at hwire
  have hfine : RunState.Fine {} := .inl ⟨rfl, rfl, rfl⟩
  have hout := DeflatedTokenReader.outline_of_reads host hr hwire (chained_pieces hfine [] hcalls)
  rw [hitems] at hout
  apply literalsOutside_of_outline [] hcalls hout

/-- The calls are read back as they were made exactly when literal bytes come only before
all blocks or after all of them. -/
theorem deflated_round_trip
    (answer : H → (x : X) → Option (Reply x × H)) (host : H) (L : F.Laws)
    {calls : List DeflateCall} (hcalls : ∀ call ∈ calls, call.Sendable) :
  RoundTrip answer F calls ↔ LiteralsOutside calls
  := ⟨RoundTrip.literalsOutside L host hcalls, LiteralsOutside.roundTrip L hcalls⟩

/-- Two blocks with literal bytes ahead of them and after them are read back. -/
theorem deflated_round_trip_outside :
  RoundTrip (fun _ _ => none : Unit → Unit → Option (Unit × Unit)) StoredFlate.codec
    [.literal [0x78], .blockMatch 0 [0x61], .blockMatch 1 [0x62], .literal [0x78]]
  := by
  have hcalls : ∀ call ∈ [DeflateCall.literal [0x78], .blockMatch 0 [0x61],
      .blockMatch 1 [0x62], .literal [0x78]], call.Sendable := by
    simp [DeflateCall.Sendable]
  apply (deflated_round_trip _ () StoredFlate.laws hcalls).mpr
  rw [literalsOutside_literal, literalsOutside_blockMatch, literalsLast_blockMatch,
    literalsLast_literal]
  apply And.intro (fun _ => rfl) literalsLast_nil

/-- Two blocks with a byte between them are not. -/
theorem deflated_round_trip_between :
  (∀ call ∈ [DeflateCall.blockMatch 0 [0x61], .literal [0x78], .blockMatch 5 [0x78]],
    call.Sendable) ∧
  ¬ RoundTrip (fun _ _ => none : Unit → Unit → Option (Unit × Unit)) StoredFlate.codec
    [.blockMatch 0 [0x61], .literal [0x78], .blockMatch 5 [0x78]]
  := by
  have hcalls : ∀ call ∈ [DeflateCall.blockMatch 0 [0x61], .literal [0x78],
      .blockMatch 5 [0x78]], call.Sendable := by
    simp [DeflateCall.Sendable]
  apply And.intro hcalls
  intro h
  have hlast := h.literalsOutside StoredFlate.laws () hcalls
  rw [literalsOutside_blockMatch, literalsLast_literal] at hlast
  have hno := hlast.1 (by simp)
  cases hno
