import RsyncRs.Delta.DeflateReader

/-!
# What the reader of deflated tokens can deliver

Whatever the inflate stream does, the blocks that a reader delivers are those of the runs on
the wire. Between them it delivers some bytes where compressed data are.
-/

variable {X : Type} {Reply : X → Type} {H : Type}
  {answer : H → (x : X) → Option (Reply x × H)} {F : Flate} {L : F.Laws}

/-- Bytes and blocks that may be delivered from the pieces: the blocks of the runs, and any
bytes in place of literal bytes. -/
inductive Outline : List Piece → List (UInt8 ⊕ ℤ) → Prop where
  | eof {ps : List Piece} : Outline (.eof :: ps) []
  | literal {data : List UInt8} {ps : List Piece} {its : List (UInt8 ⊕ ℤ)}
      (given : List UInt8) (h : Outline ps its) :
      Outline (.literal data :: ps) (given.map .inl ++ its)
  | block {bytes : List UInt8} {ps : List Piece} {its : List (UInt8 ⊕ ℤ)} (h : Outline ps its) :
      Outline (.block bytes :: ps) its
  | run {run : RunState} {ps : List Piece} {its : List (UInt8 ⊕ ℤ)} (h : Outline ps its) :
      Outline (.run run :: ps) (run.blocks.map .inr ++ its)

/-- Every run is valid, and refers to the end of the run before it. -/
def Chained (last : ℤ) : List Piece → Prop
  | [] => True
  | .literal _ :: ps => Chained last ps
  | .run run :: ps => run.Valid ∧ run.lastRunEnd = last ∧ Chained run.lastToken ps
  | .block _ :: ps => Chained last ps
  | .eof :: ps => Chained last ps

/-- What the wire starts with. -/
inductive Front (L : F.Laws) (last : ℤ) (Q : List (UInt8 ⊕ ℤ) → Prop) : List UInt8 → Prop where
  | nil : Front L last Q []
  | eof {wire : List UInt8} (hQ : Q []) : Front L last Q (endFlag :: wire)
  | run {hist wire : List UInt8} {run : RunState} {ps : List Piece} (hv : run.Valid)
      (hlast : run.lastRunEnd = last) (hw : Wire L hist ps wire)
      (hc : Chained run.lastToken ps)
      (hQ : ∀ its, Outline ps its → Q (run.blocks.map .inr ++ its)) :
      Front L last Q (run.bytes ++ wire)
  | frames {hist wire fs : List UInt8} {ps : List Piece} (hne : fs ≠ [])
      (hw : Wire L hist ps wire) (hc : Chained last ps)
      (hQ : ∀ (given : List UInt8) its, Outline ps its → Q (given.map .inl ++ its)) :
      Front L last Q (frameBytes fs ++ wire)

theorem Wire.front
    {hist wire : List UInt8} {ps : List Piece} (h : Wire L hist ps wire) {last : ℤ}
    (hc : Chained last ps) {Q : List (UInt8 ⊕ ℤ) → Prop} (hQ : ∀ its, Outline ps its → Q its) :
  Front L last Q wire
  := by
  induction h generalizing Q with
  | nil => apply Front.nil
  | @literal hist data body ps wire hne hseg h ih =>
      have hlit : ∀ (given : List UInt8) its, Outline ps its → Q (given.map .inl ++ its) := by
        intro given its ho
        apply hQ
        apply Outline.literal given ho
      by_cases hb : body = []
      · rw [hb, frameBytes, if_pos rfl]
        apply ih hc
        intro its ho
        apply hlit [] its ho
      · apply Front.frames hb h hc hlit
  | run h ih =>
      apply Front.run hc.1 hc.2.1 h hc.2.2
      intro its ho
      apply hQ
      apply Outline.run ho
  | block h ih =>
      apply ih hc
      intro its ho
      apply hQ
      apply Outline.block ho
  | eof h =>
      apply Front.eof
      apply hQ
      apply Outline.eof

namespace DeflatedTokenReader

/-- The input of the reader continues as pieces, and when it delivers what the pieces allow,
`Q` holds of the bytes and blocks. -/
inductive Pending (L : F.Laws) (Q : List (UInt8 ⊕ ℤ) → Prop) :
    DeflatedTokenReader F → List UInt8 → Prop where
  | init {tr : DeflatedTokenReader F} {hist input : List UInt8} {ps : List Piece}
      (hs : tr.state = .init) (hsaved : tr.savedFlag = none) (hw : Wire L hist ps input)
      (hc : Chained 0 ps) (hQ : ∀ its, Outline ps its → Q its) : Pending L Q tr input
  | idle {tr : DeflatedTokenReader F} {hist input : List UInt8} {ps : List Piece}
      (hs : tr.state = .idle) (hsaved : tr.savedFlag = none) (hw : Wire L hist ps input)
      (hc : Chained tr.rxToken ps) (hQ : ∀ its, Outline ps its → Q its) : Pending L Q tr input
  | literal {tr : DeflatedTokenReader F} {hist input fs wire : List UInt8} {ps : List Piece}
      (hs : tr.state = .inflating ∧ tr.savedFlag = none ∨ tr.state = .inflated)
      (hin : tr.savedFlag.toList ++ input = frameBytes fs ++ wire) (hw : Wire L hist ps wire)
      (hc : Chained tr.rxToken ps)
      (hQ : ∀ (given : List UInt8) its, Outline ps its → Q (given.map .inl ++ its)) :
      Pending L Q tr input
  | running {tr : DeflatedTokenReader F} {hist input : List UInt8} {ps : List Piece} {n : ℕ}
      (hs : tr.state = .running) (hsaved : tr.savedFlag = none) (hn : n < 65535)
      (hrun : tr.rxRun = n + 1) (h₁ : 0 ≤ tr.rxToken)
      (h₂ : tr.rxToken + (n + 1) < 2147483647) (hw : Wire L hist ps input)
      (hc : Chained (tr.rxToken + (n + 1)) ps)
      (hQ : ∀ its, Outline ps its → Q ((blocksFrom (tr.rxToken + 1) (n + 1)).map .inr ++ its)) :
      Pending L Q tr input

/-- Showing the reader the bytes of a block does not change what it waits for. -/
theorem Pending.inflate
    {Q : List (UInt8 ⊕ ℤ) → Prop} {tr : DeflatedTokenReader F} {input : List UInt8}
    (h : Pending L Q tr input) (d : F.Decompress) :
  Pending L Q { tr with inflate := d } input
  := by
  cases h with
  | init hs hsaved hw hc hQ => exact .init hs hsaved hw hc hQ
  | idle hs hsaved hw hc hQ => exact .idle hs hsaved hw hc hQ
  | literal hs hin hw hc hQ => exact .literal hs hin hw hc hQ
  | running hs hsaved hn hrun h₁ h₂ hw hc hQ =>
      exact .running hs hsaved hn hrun h₁ h₂ hw hc hQ

/-- What a round of the reader leaves. -/
def Left (L : F.Laws) (Q : List (UInt8 ⊕ ℤ) → Prop) :
    DeflatedTokenReader F ⊕ Option Token × DeflatedTokenReader F → Endpoint H UInt8 → Prop
  | .inl tr, w => Pending L Q tr w.input
  | .inr (some tok, tr), w => Pending L (fun its => Q (tok.items ++ its)) tr w.input
  | .inr (none, _), _ => Q []

/-- What holds of a round of the reader that waits. -/
abbrev SafeRound (answer : H → (x : X) → Option (Reply x × H)) {α : Type}
    (p : Session Reply α) (Q : α → Endpoint H UInt8 → Prop) (w : Endpoint H UInt8) : Prop :=
  Proc.Safe (Prog.Answers (Endpoint.answer answer false)) (fun _ _ => True) p Q
    (fun _ _ => True) w

/-- The first frame of compressed data is read. -/
theorem safe_handleFlag_frame
    {Q : List (UInt8 ⊕ ℤ) → Prop} {tr : DeflatedTokenReader F} (hsaved : tr.savedFlag = none)
    {flag : UInt8} (hflag : flag &&& 0xC0 = deflatedData) {w : Endpoint H UInt8}
    {hist fs wire : List UInt8} {ps : List Piece}
    (hin : flag :: w.input = frameBytes fs ++ wire) (hne : fs ≠ []) (hw : Wire L hist ps wire)
    (hc : Chained tr.rxToken ps)
    (hQ : ∀ (given : List UInt8) its, Outline ps its → Q (given.map .inl ++ its)) :
  SafeRound answer (handleFlag tr flag) (Left L Q) w
  := by
  obtain ⟨n, hn, hpos, hlen, hframe⟩ := frameBytes_cons hne
  rw [hframe, List.cons_append, List.append_assoc] at hin
  obtain ⟨rfl, hinput⟩ := List.cons.inj hin
  apply (reads_handleFlag_frame hn hlen tr false w _ hinput).safe
  have hrest : tr.savedFlag.toList ++ (frameBytes (fs.drop n) ++ wire) =
      frameBytes (fs.drop n) ++ wire := by
    rw [hsaved]
    rfl
  exact .literal (.inl ⟨rfl, hsaved⟩) hrest hw hc hQ

/-- After the flag of a run the rest of its blocks are pending. -/
theorem pending_entered
    {Q : List (UInt8 ⊕ ℤ) → Prop} {tr : DeflatedTokenReader F} (hs : tr.state = .idle)
    (hsaved : tr.savedFlag = none) {hist wire : List UInt8} {run : RunState} {ps : List Piece}
    (hv : run.Valid) (hw : Wire L hist ps wire) (hc : Chained run.lastToken ps)
    (hQ : ∀ its, Outline ps its → Q (run.blocks.map .inr ++ its)) :
  Pending L (fun its => Q ((Token.blockMatch run.runStart).items ++ its)) (tr.entered run) wire
  := by
  obtain ⟨h1, h2, h3, h4, -, -⟩ := hv
  by_cases he : run.lastToken = run.runStart
  · have hblocks : run.blocks = [run.runStart] := by
      have hone : run.count = 1 := by
        unfold RunState.count
        omega
      rw [RunState.blocks, hone]
      rfl
    rw [hblocks] at hQ
    rw [entered, if_pos he]
    rw [he] at hc
    exact .idle hs hsaved hw hc hQ
  · obtain ⟨n, hn⟩ : ∃ n : ℕ, run.lastToken - run.runStart = n + 1 := by
      use (run.lastToken - run.runStart - 1).toNat
      omega
    have hblocks : run.blocks = run.runStart :: blocksFrom (run.runStart + 1) (n + 1) := by
      have hcount : run.count = n + 1 + 1 := by
        unfold RunState.count
        omega
      rw [RunState.blocks, hcount]
      rfl
    rw [hblocks] at hQ
    rw [entered, if_neg he]
    refine .running rfl hsaved (by omega : n < 65535) hn h1 ?_ hw ?_ hQ
    · dsimp only
      omega
    · have hlast : run.runStart + (n + 1) = run.lastToken := by omega
      dsimp only
      rw [hlast]
      apply hc

/-- A flag that is not one of compressed data is acted upon. -/
theorem safe_decodeFlag
    {Q : List (UInt8 ⊕ ℤ) → Prop} {tr : DeflatedTokenReader F} (hs : tr.state = .idle)
    (hsaved : tr.savedFlag = none) {flag : UInt8} (hflag : flag &&& 0xC0 ≠ deflatedData)
    {w : Endpoint H UInt8} (hfront : Front L tr.rxToken Q (flag :: w.input)) :
  SafeRound answer (decodeFlag tr flag >>= fun res => pure (.inr res)) (Left L Q) w
  := by
  generalize hin : flag :: w.input = input at hfront
  cases hfront with
  | nil => cases hin
  | eof hQ =>
      obtain ⟨rfl, rfl⟩ := List.cons.inj hin
      apply (reads_decodeFlag_eof tr).safe_bind rfl
      apply hQ
  | @run hist wire run ps hv hlast hw hc hQ =>
      obtain ⟨flag', tail, hbytes, -, -, hdecode⟩ := reads_decodeFlag (F := F) answer hv
      rw [hbytes] at hin
      obtain ⟨rfl, hinput⟩ := List.cons.inj hin
      apply (hdecode tr hlast.symm).safe_bind hinput
      apply pending_entered hs hsaved hv hw hc hQ
  | frames hne =>
      obtain ⟨n, hn, -, -, hframe⟩ := frameBytes_cons hne
      rw [hframe] at hin
      obtain ⟨rfl, -⟩ := List.cons.inj hin
      cases hflag (frame_flag hn).1

/-- A frame on the wire is the front of it. -/
theorem front_frames
    {Q : List (UInt8 ⊕ ℤ) → Prop} {last : ℤ} {flag : UInt8} {input : List UInt8}
    (h : Front L last Q (flag :: input)) (hflag : flag &&& 0xC0 = deflatedData) :
  ∃ hist fs wire ps, flag :: input = frameBytes fs ++ wire ∧ fs ≠ [] ∧ Wire L hist ps wire ∧
    Chained last ps ∧ ∀ (given : List UInt8) its, Outline ps its → Q (given.map .inl ++ its)
  := by
  generalize hin : flag :: input = bs at h
  cases h with
  | nil => cases hin
  | eof =>
      obtain ⟨rfl, -⟩ := List.cons.inj hin
      cases hflag
  | run hv =>
      obtain ⟨flag', tail, hbytes, -, hc, -⟩ := reads_decodeFlag (F := F)
        (fun _ _ => none : Unit → Unit → Option (Unit × Unit)) hv
      rw [hbytes] at hin
      obtain ⟨rfl, -⟩ := List.cons.inj hin
      cases hc hflag
  | @frames hist wire fs ps hne hw hc hQ =>
      use hist, fs, wire, ps

/-- A reader that is ready acts upon a flag. -/
theorem safe_handleFlag_idle
    {Q : List (UInt8 ⊕ ℤ) → Prop} {tr : DeflatedTokenReader F} (hs : tr.state = .idle)
    (hsaved : tr.savedFlag = none) {flag : UInt8} {w : Endpoint H UInt8}
    (hfront : Front L tr.rxToken Q (flag :: w.input)) :
  SafeRound answer (handleFlag tr flag) (Left L Q) w
  := by
  by_cases hflag : flag &&& 0xC0 = deflatedData
  · obtain ⟨hist, fs, wire, ps, hin, hne, hw, hc, hQ⟩ := front_frames hfront hflag
    apply safe_handleFlag_frame hsaved hflag hin hne hw hc hQ
  · unfold handleFlag
    rw [if_neg hflag, hs, if_neg (by decide)]
    apply safe_decodeFlag hs hsaved hflag hfront

theorem safe_inflateStep_bind
    {α : Type} {d : F.Decompress} {x : List UInt8} {flush : FlushDecompress}
    {f : FlateStep F.Decompress → Session Reply α} {Q : α → Endpoint H UInt8 → Prop}
    {w : Endpoint H UInt8} (h : ∀ r, SafeRound answer (f r) Q w) :
  SafeRound answer (liftM (inflateStep F d x flush) >>= f) Q w
  := by
  unfold inflateStep
  cases F.decompress d x dbufLen flush with
  | error e => apply trivial
  | ok r => apply h r

/-- A reader that has read compressed data acts upon a flag. -/
theorem safe_handleFlag_inflated
    {Q : List (UInt8 ⊕ ℤ) → Prop} {tr : DeflatedTokenReader F} (hs : tr.state = .inflated)
    (hsaved : tr.savedFlag = none) {flag : UInt8} {w : Endpoint H UInt8}
    {hist fs wire : List UInt8} {ps : List Piece} (hin : flag :: w.input = frameBytes fs ++ wire)
    (hw : Wire L hist ps wire) (hc : Chained tr.rxToken ps)
    (hQ : ∀ (given : List UInt8) its, Outline ps its → Q (given.map .inl ++ its)) :
  SafeRound answer (handleFlag tr flag) (Left L Q) w
  := by
  have hfront : Front L tr.rxToken Q (flag :: w.input) := by
    rw [hin]
    by_cases hne : fs = []
    · rw [hne, frameBytes, if_pos rfl]
      apply hw.front hc
      apply hQ []
    · apply Front.frames hne hw hc hQ
  by_cases hflag : flag &&& 0xC0 = deflatedData
  · obtain ⟨hist, fs, wire, ps, hin, hne, hw, hc, hQ⟩ := front_frames hfront hflag
    apply safe_handleFlag_frame hsaved hflag hin hne hw hc hQ
  · unfold handleFlag
    rw [if_neg hflag, if_pos hs]
    apply safe_inflateStep_bind
    intro r
    by_cases ho : r.out = []
    · rw [if_neg (not_not.mpr ho)]
      apply safe_inflateStep_bind
      intro r'
      by_cases hfour : r'.consumed = 4
      · rw [if_neg (not_not.mpr hfour)]
        apply safe_decodeFlag
        · rfl
        · apply hsaved
        · apply hflag
        · apply hfront
      · rw [if_pos hfour]
        apply trivial
    · rw [if_pos ho]
      -- the flag is kept, and more bytes may follow
      have hlit : ∀ (given : List UInt8) its, Outline ps its →
          Q ((Token.literal r.out).items ++ (given.map .inl ++ its)) := by
        intro given its hits
        have h := hQ (r.out ++ given) its hits
        rw [List.map_append, List.append_assoc] at h
        apply h
      exact .literal (.inr hs) hin hw hc hlit

theorem safe_readByte_bind
    {α : Type} {f : UInt8 → Session Reply α} {Q : α → Endpoint H UInt8 → Prop}
    {w : Endpoint H UInt8}
    (h : ∀ b rest, w.input = b :: rest → SafeRound answer (f b) Q { w with input := rest }) :
  SafeRound answer (readByte >>= f) Q w
  := by
  apply Proc.Safe.bind
  apply Proc.safe_read trivial
  · intro b w' hr
    cases hin : w.input with
    | nil =>
        simp only [Prog.Answers, Endpoint.answer, hin] at hr
        cases hr
    | cons b' rest =>
        simp only [Prog.Answers, Endpoint.answer, hin] at hr
        cases hr
        apply h b rest hin
  · intro w' hr
    apply trivial

/-- A round of the reader leaves what is pending. -/
theorem safe_step
    {Q : List (UInt8 ⊕ ℤ) → Prop} {tr : DeflatedTokenReader F} {w : Endpoint H UInt8}
    (h : Pending L Q tr w.input) :
  SafeRound answer (step tr) (Left L Q) w
  := by
  generalize hinput : w.input = input at h
  unfold step
  cases h with
  | init hs hsaved hw hc hQ =>
      rw [hs]
      subst hinput
      exact .idle rfl hsaved hw hc hQ
  | idle hs hsaved hw hc hQ =>
      rw [hs, hsaved]
      apply safe_readByte_bind
      intro flag rest hrest
      apply safe_handleFlag_idle hs hsaved
      rw [← hinput, hrest] at hw
      apply hw.front hc hQ
  | @literal hist _ fs wire ps hs hin hw hc hQ =>
      rcases hs with ⟨hs, hsaved⟩ | hs
      · rw [hs]
        apply safe_inflateStep_bind
        intro r
        dsimp only
        have hstate : ∀ s, (s = if tr.cbuf.drop r.consumed = [] then RxState.inflated
            else RxState.inflating) → s = .inflating ∧ tr.savedFlag = none ∨ s = .inflated := by
          rintro s rfl
          split
          · apply Or.inr rfl
          · apply Or.inl ⟨rfl, hsaved⟩
        subst hinput
        by_cases ho : r.out = []
        · rw [if_neg (not_not.mpr ho)]
          exact .literal (hstate _ rfl) hin hw hc hQ
        · rw [if_pos ho]
          have hlit : ∀ (given : List UInt8) its, Outline ps its →
              Q ((Token.literal r.out).items ++ (given.map .inl ++ its)) := by
            intro given its hits
            have h := hQ (r.out ++ given) its hits
            rw [List.map_append, List.append_assoc] at h
            apply h
          exact .literal (hstate _ rfl) hin hw hc hlit
      · rw [hs]
        cases hsaved : tr.savedFlag with
        | some flag =>
            rw [hsaved, ← hinput] at hin
            apply safe_handleFlag_inflated
            · rfl
            · rfl
            · apply hin
            · apply hw
            · apply hc
            · exact hQ
        | none =>
            apply safe_readByte_bind
            intro flag rest hrest
            rw [hsaved, ← hinput, hrest] at hin
            exact safe_handleFlag_inflated hs hsaved hin hw hc hQ
  | @running hist _ ps n hs hsaved hn hrun h₁ h₂ hw hc hQ =>
      have hstep : Proc.Reads answer (step tr : Session Reply _) [] _ :=
        reads_step_running hn hs hrun h₁ (by omega)
      apply (hstep false w w.input rfl).safe
      subst hinput
      cases n with
      | zero =>
          have hc' : Chained (tr.rxToken + 1) ps := by
            simpa using hc
          exact .idle rfl hsaved hw hc' hQ
      | succ n =>
          refine .running rfl hsaved (by omega : n < 65535) ?_ ?_ ?_ hw ?_ hQ
          · simp
          · dsimp only
            omega
          · dsimp only
            omega
          · have hlast : tr.rxToken + 1 + (n + 1) = tr.rxToken + ((n + 1 : ℕ) + 1) := by omega
            dsimp only
            rw [hlast]
            apply hc

/-- What holds at the start of each round of the caller, and at its end. -/
def Collected (L : F.Laws) (ps : List Piece) (x : Receiving F ⊕ List Token)
    (w : Endpoint H UInt8) : Prop :=
  Sum.elim (fun s : Receiving F =>
      Pending L (fun its => Outline ps (tokenItems s.2.2 ++ its)) s.1 w.input)
    (fun toks => Outline ps (tokenItems toks)) x

theorem safe_keep
    {ps : List Piece} {blocks : List (List UInt8)} {acc : List Token}
    {res : Option Token × DeflatedTokenReader F} {w : Endpoint H UInt8}
    (h : Left L (fun its => Outline ps (tokenItems acc ++ its)) (.inr res) w) :
  SafeRound answer (keep blocks acc res) (Collected L ps) w
  := by
  have hassoc : ∀ tok : Token, (fun its => Outline ps (tokenItems acc ++ (tok.items ++ its))) =
      fun its => Outline ps (tokenItems (acc ++ [tok]) ++ its) := by
    intro tok
    funext its
    rw [tokenItems_append, tokenItems_cons, tokenItems_nil, List.append_nil, List.append_assoc]
  rcases res with ⟨_ | data | idx, tr⟩
  · have hend : Outline ps (tokenItems acc ++ []) := h
    rw [List.append_nil] at hend
    apply hend
  · have hpend : Pending L (fun its => Outline ps
        (tokenItems acc ++ ((Token.literal data).items ++ its))) tr w.input := h
    rw [hassoc] at hpend
    apply hpend
  · have hpend : Pending L (fun its => Outline ps
        (tokenItems acc ++ ((Token.blockMatch idx).items ++ its))) tr w.input := h
    rw [hassoc] at hpend
    unfold keep seeBlock
    dsimp only
    cases seeBytes F tr.inflate (blocks.headD []) with
    | error e => exact trivial
    | ok d => exact hpend.inflate d

/-- What the caller gets follows the outline of the pieces. -/
theorem outline_of_reads
    (host : H) {ps : List Piece} {blocks : List (List UInt8)} {wire : List UInt8}
    {toks : List Token}
    (h : Proc.Reads answer (readTokens F blocks : Session Reply (List Token)) wire toks)
    (hw : Wire L [] ps wire) (hc : Chained 0 ps) :
  Outline ps (tokenItems toks)
  := by
  have hsafe : SafeRound answer (readTokens F blocks) (fun toks _ => Outline ps (tokenItems toks))
      ⟨host, wire, [], []⟩ := by
    apply Proc.safe_loop fun (s : Receiving F) (w : Endpoint H UInt8) => Collected L ps (.inl s) w
    · exact .init rfl rfl hw hc fun its hits => hits
    · rintro ⟨tr, blocks, acc⟩ w hp
      apply Proc.Safe.bind
      apply Proc.safe_loop fun (tr : DeflatedTokenReader F) (w : Endpoint H UInt8) =>
        Pending L (fun its => Outline ps (tokenItems acc ++ its)) tr w.input
      · apply hp
      · intro tr w hp
        apply (safe_step hp).mono
        · rintro (tr' | res) w' hleft
          · apply hleft
          · apply (safe_keep hleft).mono
            · rintro (s | toks) w' hx
              · apply hx
              · apply hx
            · intro e w' he
              apply trivial
        · intro e w' he
          apply trivial
  have hrun := h false ⟨host, wire, [], []⟩ [] (List.append_nil wire).symm
  apply hsafe.ends hrun

end DeflatedTokenReader
