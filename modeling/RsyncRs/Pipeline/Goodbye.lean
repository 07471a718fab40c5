import RsyncRs.Io.Marked
import RsyncRs.Pipeline.Session

/-!
# The end of a session

The receiver ends each phase with a mark, and the sender echoes it. Then both sides take leave: in
a pull the server adds its counters, in a push the client has one more mark to send. Something is
left unread at one side, but nobody waits.
-/

open Duplex

variable {H H' : Type} {F : Flate} {dig : Digests}

/-! ### Marks -/

section Marks

variable {answer : H → (x : FsCall) → Option (FsReply x × H)}

theorem encodeIndex_done
    {protocol : ℕ} (hp : 30 ≤ protocol) (tx : NdxState) :
  encodeIndex protocol tx ndxDone = ([0], tx)
  := by
  rw [encodeIndex, if_pos hp]
  rfl

theorem writes_done
    {protocol : ℕ} (hp : 30 ≤ protocol) (tx : NdxState) :
  Proc.Writes answer (writeIndex protocol tx ndxDone : Session FsReply NdxState) [0] tx
  := by
  have h : Proc.Writes answer (writeIndex protocol tx ndxDone : Session FsReply NdxState)
      (encodeIndex protocol tx ndxDone).1 (encodeIndex protocol tx ndxDone).2 :=
    writes_writeIndex protocol tx ndxDone
  rwa [encodeIndex_done hp] at h

theorem reads_done
    {protocol : ℕ} (hp : 30 ≤ protocol) (rx : NdxState) :
  Proc.Reads answer (readIndex protocol rx : Session FsReply (ℤ × NdxState)) [0] (ndxDone, rx)
  := by
  have h : Proc.Reads answer (readIndex protocol rx : Session FsReply (ℤ × NdxState))
      (encodeIndex protocol rx ndxDone).1 (ndxDone, (encodeIndex protocol rx ndxDone).2) :=
    reads_readIndex protocol rx (by decide) (by decide)
  rwa [encodeIndex_done hp] at h

/-- The marks do without the coding of indices. -/
theorem reads_readNdx_done
    (rx : NdxState) :
  Proc.Reads answer (readNdx rx : Session FsReply (ℤ × NdxState)) [0] (ndxDone, rx)
  := reads_done (le_refl 30) rx

theorem writes_writeNdx_done
    (tx : NdxState) :
  Proc.Writes answer (writeNdx tx ndxDone : Session FsReply NdxState) [0] tx
  := writes_done (le_refl 30) tx

end Marks

/-! ### Taking leave -/

namespace Sender

/-- Send the mark after the last request. -/
def lastMark (args : SenderArgs) (s : Sender) : Session FsReply Sender := do
  let tx ← writeIndex args.protocol s.tx ndxDone
  flushOk
  pure { s with tx := tx }

theorem run_eq
    (args : SenderArgs) (s : Sender) :
  run dig F args s = Proc.loop (round dig F args) s >>= lastMark args
  := rfl

/-- Send the counters of the server. -/
def handleStats (protocol : ℕ) (stats : Stats) : Session FsReply Unit := do
  writeVarlong stats.totalRead 3
  writeVarlong stats.totalWritten 3
  writeVarlong stats.totalSize 3
  if 29 ≤ protocol then
    writeVarlong 0 3
    writeVarlong 0 3
  flushOk

/-- Read the marks that end the session of a server, and answer the first of them. -/
def readFinalGoodbye (protocol : ℕ) (s : Sender) : Session FsReply Sender :=
  if 29 ≤ protocol then do
    let (i, rx) ← readNdx s.rx
    if 31 ≤ protocol ∧ i = ndxDone then
      let tx ← writeNdx s.tx ndxDone
      flushOk
      let (_, rx) ← readNdx rx
      pure { s with rx := rx, tx := tx }
    else
      pure { s with rx := rx }
  else
    pure s

/-- A server answers requests, sends its counters and takes leave. -/
def serve (dig : Digests) (F : Flate) (args : SenderArgs) (s : Sender) :
    Session FsReply Sender := do
  let s ← run dig F args s
  handleStats args.protocol s.stats
  readFinalGoodbye args.protocol s

/-- Read a mark, if one comes. -/
def readMark (protocol : ℕ) (s : Sender) : Session FsReply Sender := do
  match ← okOrNone (readIndex protocol s.rx) with
  | some (_, rx) => pure { s with rx := rx }
  | none => pure s

/-- The marks with which a client that sends takes leave. -/
def takeLeave (protocol : ℕ) (s : Sender) : Session FsReply Sender :=
  if 29 ≤ protocol then do
    let s ← if 30 ≤ protocol then readMark protocol s else pure s
    if 31 ≤ protocol then
      let tx ← writeNdx s.tx ndxDone
      flushOk
      readMark protocol { s with tx := tx }
    else
      pure s
  else
    pure s

/-- A client answers requests and takes leave. -/
def push (dig : Digests) (F : Flate) (args : SenderArgs) (s : Sender) :
    Session FsReply Sender := do
  let s ← run dig F args s
  takeLeave args.protocol s

end Sender

namespace Receiver

/-- Read a counter of the server. Without one it is zero. -/
def readTotal : Session FsReply ℤ := do
  let x ← okOrNone (readVarlong 3)
  pure (x.getD 0)

/-- Read the counters of the server. -/
def readTotals (protocol : ℕ) (stats : Stats) : Session FsReply Stats :=
  if 29 ≤ protocol then do
    let totalWritten ← readTotal
    let totalRead ← readTotal
    let totalSize ← readTotal
    let _ ← readTotal
    let _ ← readTotal
    pure { stats with totalWritten, totalRead, totalSize }
  else
    pure stats

/-- A client receives the files of the list and the counters of the server. -/
def pull (dig : Digests) (F : Flate) (args : ReceiverArgs) (s : Receiver) :
    Session FsReply Receiver := do
  let s ← run dig F args s
  let stats ← readTotals args.protocol s.stats
  pure { s with stats := stats }

end Receiver

/-! ### The phases -/

namespace Receiver

variable {answer : H → (x : FsCall) → Option (FsReply x × H)}
  {answer' : H' → (x : FsCall) → Option (FsReply x × H')} {args : ReceiverArgs}
  {sargs : SenderArgs} {s : Receiver} {ss : Sender} {h : H} {h' : H'} {α β : Type}

theorem returns_sendDone
    {closed : Bool} (hp : 30 ≤ args.protocol) (s : Receiver) (w : Endpoint H' UInt8) :
  Proc.Returns answer' closed (sendDone args s) w s
    { w with buffer := [], sent := w.sent ++ (w.buffer ++ [0]) }
  := by
  apply Proc.Returns.bind (writes_done hp s.tx closed w)
  apply Proc.Returns.bind (returns_flushOk closed _)
  exact Proc.returns_pure _ _

theorem reads_readDone
    (hp : 30 ≤ args.protocol) (s : Receiver) :
  Proc.Reads answer' (readDone args s) [0] s
  := (reads_done hp s.rx).map _

/-- The sender answers the mark that ends one of the first phases. -/
theorem returns_round_phase
    {closed : Bool} (hp : 30 ≤ sargs.protocol) (hphase : ss.phase < 2) :
  Proc.Returns answer closed (Sender.round dig F sargs ss) ⟨h, [0], [], []⟩
    (.inl { ss with phase := ss.phase + 1 }) ⟨h, [], [], [0]⟩
  := by
  have hmax : ¬ maxPhase sargs.protocol < ss.phase + 1 := by
    rw [maxPhase, if_pos (by omega)]
    omega
  apply Proc.Returns.bind (reads_done hp ss.rx closed _ [] rfl)
  dsimp only
  rw [if_pos rfl, Sender.endPhase, if_neg hmax]
  apply Proc.Returns.bind (writes_done hp ss.tx closed _)
  apply Proc.Returns.bind (returns_flushOk closed _)
  exact Proc.returns_pure _ _

/-- The sender stops at the mark that ends the last phase. -/
theorem returns_round_last
    {closed : Bool} (hp : 30 ≤ sargs.protocol) (hphase : ss.phase = 2) (w : Endpoint H UInt8)
    {rest : List UInt8} (hw : w.input = [0] ++ rest) :
  Proc.Returns answer closed (Sender.round dig F sargs ss) w (.inr { ss with phase := 3 })
    { w with input := rest }
  := by
  have hmax : maxPhase sargs.protocol < ss.phase + 1 := by
    rw [maxPhase, if_pos (by omega), hphase]
    decide
  apply Proc.Returns.bind (reads_done hp ss.rx closed w rest hw)
  dsimp only
  rw [if_pos rfl, Sender.endPhase, if_pos hmax, hphase]
  exact Proc.returns_pure _ _

/-- A phase ends at both sides. -/
theorem reaches_exchangeDone
    (hp : 30 ≤ args.protocol) (hprotocol : sargs.protocol = args.protocol) (hphase : ss.phase < 2)
    (n : ℕ) (f : Sender → Session FsReply α) (g : Receiver → Session FsReply β) :
  Reaches answer answer'
    (talk (Proc.loop (Sender.round dig F sargs) ss >>= f) h (exchangeDone args s n >>= g) h')
    (talk (Proc.loop (Sender.round dig F sargs) { ss with phase := ss.phase + 1 } >>= f) h (g s)
      h')
  := by
  have hask : Proc.Comes answer' (exchangeDone args s n >>= g) ⟨h', [], [], []⟩
      (readDone args s >>= g) ⟨h', [], [], [0]⟩ :=
    ((returns_sendDone hp s ⟨h', [], [], []⟩).comes _).bind g
  have hserve : Proc.Comes answer (Proc.loop (Sender.round dig F sargs) ss) ⟨h, [0], [], []⟩
      (Proc.loop (Sender.round dig F sargs) { ss with phase := ss.phase + 1 }) ⟨h, [], [], [0]⟩ :=
    Proc.comes_loop_again (returns_round_phase (hprotocol ▸ hp) hphase)
  exact reaches_talk_ask hask (hserve.bind f)
    ((reads_readDone hp s false ⟨h', [0], [], []⟩ [] rfl).comes g)

/-- The marks after the last phase. -/
def lastMarks (args : ReceiverArgs) (s : Receiver) : Session FsReply Receiver := do
  let s ← sendDone args s
  let s ← sendDone args s
  if 31 ≤ args.protocol then
    let s ← readDone args s
    sendDone args s
  else
    match ← okOrNone (readDone args s) with
    | some s => pure s
    | none => pure s

theorem goodbye_eq
    (args : ReceiverArgs) (s : Receiver) :
  goodbye args s =
    Proc.forEach (exchangeDone args) s (List.range (maxPhase args.protocol)) >>= lastMarks args
  := rfl

/-- Both phases end. -/
theorem reaches_phases
    (hp : 30 ≤ args.protocol) (hprotocol : sargs.protocol = args.protocol) (hphase : ss.phase = 0)
    (f : Sender → Session FsReply α) (g : Receiver → Session FsReply β) :
  Reaches answer answer'
    (talk (Proc.loop (Sender.round dig F sargs) ss >>= f) h (goodbye args s >>= g) h')
    (talk (Proc.loop (Sender.round dig F sargs) { ss with phase := 2 } >>= f) h
      (lastMarks args s >>= g) h')
  := by
  have hmax : List.range (maxPhase args.protocol) = [0, 1] := by
    rw [maxPhase, if_pos (by omega)]
    rfl
  have hgoodbye : goodbye args s >>= g =
      exchangeDone args s 0 >>= fun s => exchangeDone args s 1 >>= fun s =>
        lastMarks args s >>= g := by
    rw [goodbye_eq, hmax]
    simp only [Proc.forEach, bind_assoc, pure_bind]
  rw [hgoodbye]
  apply (reaches_exchangeDone hp hprotocol (by omega) 0 f _).trans
  have hsecond : Reaches answer answer'
      (talk (Proc.loop (Sender.round dig F sargs) { ss with phase := 1 } >>= f) h
        (exchangeDone args s 1 >>= fun s => lastMarks args s >>= g) h')
      (talk (Proc.loop (Sender.round dig F sargs) { ss with phase := 2 } >>= f) h
        (lastMarks args s >>= g) h') :=
    reaches_exchangeDone hp hprotocol Nat.one_lt_two 1 f _
  rw [hphase]
  exact hsecond

/-! ### The last marks -/

/-- The sender comes to its last mark. -/
theorem comes_lastMark
    (hp : 30 ≤ sargs.protocol) (hphase : ss.phase = 2) (rest : Sender → Session FsReply α) :
  Proc.Comes answer
    (Proc.loop (Sender.round dig F sargs) ss >>= fun s => Sender.lastMark sargs s >>= rest)
    ⟨h, [0, 0], [], []⟩ (rest { ss with phase := 3 }) ⟨h, [0], [], [0]⟩
  := by
  have hround : Proc.Returns answer false (Sender.round dig F sargs ss) ⟨h, [0, 0], [], []⟩
      (.inr { ss with phase := 3 }) ⟨h, [0], [], []⟩ := returns_round_last hp hphase _ rfl
  have hmark : Proc.Returns answer false (Sender.lastMark sargs { ss with phase := 3 })
      ⟨h, [0], [], []⟩ { ss with phase := 3 } ⟨h, [0], [], [0]⟩ := by
    apply Proc.Returns.bind (writes_done hp ss.tx false _)
    apply Proc.Returns.bind (returns_flushOk false _)
    exact Proc.returns_pure _ _
  exact ((Proc.returns_loop_done hround).comes _).trans (hmark.comes rest)

/-- The receiver sends two marks, the last one unasked. -/
theorem comes_lastMarks
    (hp : 30 ≤ args.protocol) (f : Receiver → Session FsReply β) :
  Proc.Comes answer' (sendDone args s >>= fun s => sendDone args s >>= f) ⟨h', [], [], []⟩ (f s)
    ⟨h', [], [], [0, 0]⟩
  := by
  apply ((returns_sendDone hp s ⟨h', [], [], []⟩).comes _).trans
  exact (returns_sendDone hp s ⟨h', [], [], [0]⟩).comes _

/-- Both sides take leave at protocol 31. The sender sends `more` after its mark, and the receiver
reads some of it. -/
theorem reaches_parting_new
    (hp : 31 ≤ args.protocol) (hprotocol : sargs.protocol = args.protocol) (hphase : ss.phase = 2)
    {rest : Sender → Session FsReply α} {g : Receiver → Session FsReply β}
    {p : Session FsReply α} {a : α} {b : β} {more extra : List UInt8}
    (hleft : Proc.Comes answer (rest { ss with phase := 3 }) ⟨h, [0], [], [0]⟩ p
      ⟨h, [], [], [0] ++ more⟩)
    (hlast : Proc.Returns answer false p ⟨h, [0], [], []⟩ a ⟨h, [], [], []⟩)
    (hright : Proc.Returns answer' false (g s) ⟨h', more, [], [0]⟩ b ⟨h', extra, [], [0]⟩) :
  Reaches answer answer'
    (talk (Proc.loop (Sender.round dig F sargs) ss >>= fun s => Sender.lastMark sargs s >>= rest) h
      (lastMarks args s >>= g) h')
    ((.ret (.ok a), ⟨h, [], [], []⟩), (.ret (.ok b), ⟨h', extra, [], []⟩))
  := by
  have hp₀ : 30 ≤ args.protocol := by omega
  let f : Receiver → Session FsReply Receiver := fun s =>
    readDone args s >>= fun s => sendDone args s
  have hmarks : lastMarks args s = sendDone args s >>= fun s => sendDone args s >>= f := by
    unfold lastMarks
    simp only [if_pos hp, f]
  have hask : Proc.Comes answer' (lastMarks args s >>= g) ⟨h', [], [], []⟩ (f s >>= g)
      ⟨h', [], [], [0, 0]⟩ := by
    rw [hmarks]
    exact (comes_lastMarks hp₀ f).bind g
  have htake : Proc.Returns answer' false (f s) ⟨h', [0] ++ more, [], []⟩ s
      ⟨h', more, [], [0]⟩ := by
    apply Proc.Returns.bind (reads_readDone hp₀ s false _ more rfl)
    exact returns_sendDone hp₀ s _
  apply (reaches_right _ hask).trans
  apply (reaches_toLeft _ _).trans
  apply (reaches_left _ ((comes_lastMark (hprotocol ▸ hp₀) hphase rest).trans hleft)).trans
  apply (reaches_toRight _ _).trans
  apply (reaches_right _ (htake.bind hright)).trans
  apply (reaches_toLeft _ _).trans
  exact reaches_left _ hlast

/-- Both sides take leave at protocol 30. -/
theorem reaches_parting_old
    (hp : args.protocol = 30) (hprotocol : sargs.protocol = args.protocol) (hphase : ss.phase = 2)
    {rest : Sender → Session FsReply α} {g : Receiver → Session FsReply β} {a : α} {b : β}
    {more : List UInt8}
    (hleft : Proc.Returns answer false (rest { ss with phase := 3 }) ⟨h, [0], [], [0]⟩ a
      ⟨h, [], [], [0] ++ more⟩)
    (hright : Proc.Returns answer' false (g s) ⟨h', more, [], []⟩ b ⟨h', [], [], []⟩) :
  Reaches answer answer'
    (talk (Proc.loop (Sender.round dig F sargs) ss >>= fun s => Sender.lastMark sargs s >>= rest) h
      (lastMarks args s >>= g) h')
    ((.ret (.ok a), ⟨h, [], [], []⟩), (.ret (.ok b), ⟨h', [], [], []⟩))
  := by
  have hp₀ : 30 ≤ args.protocol := by omega
  have hp₁ : ¬ 31 ≤ args.protocol := by omega
  let f : Receiver → Session FsReply Receiver := fun s => okOrNone (readDone args s) >>= fun x =>
    match x with
    | some s => pure s
    | none => pure s
  have hmarks : lastMarks args s = sendDone args s >>= fun s => sendDone args s >>= f := by
    unfold lastMarks
    simp only [if_neg hp₁, f]
  have hask : Proc.Comes answer' (lastMarks args s >>= g) ⟨h', [], [], []⟩ (f s >>= g)
      ⟨h', [], [], [0, 0]⟩ := by
    rw [hmarks]
    exact (comes_lastMarks hp₀ f).bind g
  have htake : Proc.Returns answer' false (f s) ⟨h', [0] ++ more, [], []⟩ s ⟨h', more, [], []⟩ := by
    apply Proc.Returns.bind (reads_okOrNone (reads_readDone hp₀ s) false _ more rfl)
    exact Proc.returns_pure _ _
  apply (reaches_right _ hask).trans
  apply (reaches_toLeft _ _).trans
  apply (reaches_left _ (comes_lastMark (hprotocol ▸ hp₀) hphase rest)).trans
  apply (reaches_left _ hleft).trans
  apply (reaches_toRight _ _).trans
  exact reaches_right _ (htake.bind hright)

end Receiver
