import RsyncRs.Delta.StoredFlate
import RsyncRs.Fs.Disk
import RsyncRs.Pipeline.Goodbye
import RsyncRs.Program.Termination

/-!
# Pull and push

A pull or a push over two queues does at its destination what a copy does that has the content of
the files at hand: whatever the timing, both sides come to their end, and nobody waits for the
other.
-/

open Duplex

variable {H H' : Type} {F : Flate} {dig : Digests}
  {answer : H → (x : FsCall) → Option (FsReply x × H)}
  {answer' : H' → (x : FsCall) → Option (FsReply x × H')}

namespace Receiver

variable {args : ReceiverArgs} {sargs : SenderArgs} {J : H → Prop} {source : ℕ → List UInt8}
  {s : Receiver} {ss : Sender} {h : H} {h' k' : H'} {stats : Stats}

/-- With the content of the files at hand the receiver comes to its end by itself, where the
counters are `stats` and the host is in the state `k'`. What it replaces can be compared with what
it puts there. -/
structure Copies (answer' : H' → (x : FsCall) → Option (FsReply x × H')) (dig : Digests)
    (args : ReceiverArgs) (source : ℕ → List UInt8) (h' : H') (stats : Stats) (k' : H') :
    Prop where
  returns : Proc.Returns answer' false (copyAll args source {}) ⟨h', [], [], []⟩ stats
    ⟨k', [], [], []⟩
  compares : Proc.Meets (compares answer' dig args) (Prog.Answers (Endpoint.answer answer' false))
    (copyAll args source {}) ⟨h', [], [], []⟩

theorem run_eq
    (args : ReceiverArgs) (s : Receiver) :
  run dig F args s =
    Proc.forEach (makeDir args) () args.flist.files >>= fun _ =>
      Proc.forEach (receiveFile dig F args) s args.flist.files.zipIdx >>= fun s =>
        makeLinks args >>= fun _ => goodbye args s
  := by
  unfold run makeLinks
  simp only [bind_assoc]

/-- All files of the list are received as they are copied, and the phases end. -/
theorem reaches_lastMarks
    (hp : 30 ≤ args.protocol) (hagrees : Agrees args sargs)
    (hserves : ServesAll answer sargs J args source) (hh : J h)
    (hcopies : Copies answer' dig args source h' stats k') :
  ∃ s ss k, s.stats = stats ∧ InStep s ss ∧ J k ∧
    ∀ {α β : Type} (f : Sender → Session FsReply α) (g : Receiver → Session FsReply β),
      Reaches answer answer'
        (talk (Proc.loop (Sender.round dig F sargs) {} >>= f) h (run dig F args {} >>= g) h')
        (talk (Proc.loop (Sender.round dig F sargs) { ss with phase := 2 } >>= f) k
          (lastMarks args s >>= g) k')
  := by
  obtain ⟨hreturns, hmeets⟩ := hcopies
  obtain ⟨u, w₁, hdirs, hreturns⟩ := hreturns.bind_inv
  replace hmeets := hmeets.bind_right hdirs
  have hw₁ : w₁ = ⟨w₁.host, [], [], []⟩ :=
    ((Proc.onlyHosts_forEach (onlyHosts_makeDir args) () _).frame hdirs).1
  rw [hw₁] at hdirs hreturns hmeets
  obtain ⟨stats₁, w₂, hfiles, hreturns⟩ := hreturns.bind_inv
  replace hmeets := hmeets.bind_left
  have hw₂ : w₂ = ⟨w₂.host, [], [], []⟩ :=
    ((Proc.onlyHosts_forEach (onlyHosts_copyEntry args source) {} _).frame hfiles).1
  rw [hw₂] at hfiles hreturns
  obtain ⟨v, w₃, hlinks, hreturns⟩ := hreturns.bind_inv
  obtain ⟨rfl, rfl⟩ := hreturns.pure_inv
  obtain ⟨s, ss, k, hstats, hstep, hk, hreach⟩ :=
    served_files hagrees hserves inStep_start hh hmeets hfiles
  refine ⟨s, ss, k, hstats, hstep, hk, fun f g => ?_⟩
  have hrun : run dig F args {} >>= g =
      Proc.forEach (makeDir args) () args.flist.files >>= fun _ =>
        Proc.forEach (receiveFile dig F args) {} args.flist.files.zipIdx >>= fun s =>
          makeLinks args >>= fun _ => goodbye args s >>= g := by
    rw [run_eq]
    simp only [bind_assoc]
  rw [hrun]
  apply (reaches_talk_right hdirs).trans
  apply (hreach f _).trans
  apply (reaches_talk_right hlinks).trans
  exact reaches_phases hp hagrees.protocol hstep.phase f g

end Receiver

/-! ### Counters of the server -/

/-- The bytes that carry the counters of a server. -/
def Sender.encodeStats (stats : Stats) : List UInt8 :=
  encodeVarlong stats.totalRead 3 ++ (encodeVarlong stats.totalWritten 3 ++
    (encodeVarlong stats.totalSize 3 ++ (encodeVarlong 0 3 ++ encodeVarlong 0 3)))

theorem Sender.returns_handleStats
    {closed : Bool} {protocol : ℕ} (hp : 29 ≤ protocol) (stats : Stats) (w : Endpoint H UInt8) :
  Proc.Returns answer closed (Sender.handleStats protocol stats) w ()
    { w with buffer := [], sent := w.sent ++ (w.buffer ++ Sender.encodeStats stats) }
  := by
  unfold Sender.handleStats
  apply Proc.Returns.bind (writes_writeVarlong stats.totalRead 3 closed w)
  apply Proc.Returns.bind (writes_writeVarlong stats.totalWritten 3 closed _)
  apply Proc.Returns.bind (writes_writeVarlong stats.totalSize 3 closed _)
  rw [if_pos hp]
  apply Proc.Returns.bind (writes_writeVarlong 0 3 closed _)
  apply Proc.Returns.bind (writes_writeVarlong 0 3 closed _)
  have hflush : Proc.Returns answer closed (flushOk : Session FsReply Unit)
      { w with buffer := w.buffer ++ Sender.encodeStats stats } () _ := returns_flushOk closed _
  simpa only [Sender.encodeStats, List.append_assoc] using hflush

theorem Receiver.reads_readTotal
    {x : ℤ} (hx : IsI64 x) :
  Proc.Reads answer Receiver.readTotal (encodeVarlong x 3) x
  := (reads_okOrNone (reads_readVarlong (by decide) (by decide) hx)).map _

/-- The counters of the server are read as they were written, but what it has read is what the
client has written. -/
theorem Receiver.reads_readTotals
    {protocol : ℕ} (hp : 29 ≤ protocol) (stats : Stats) {stats' : Stats}
    (hread : IsI64 stats'.totalRead) (hwritten : IsI64 stats'.totalWritten)
    (hsize : IsI64 stats'.totalSize) :
  Proc.Reads answer (Receiver.readTotals protocol stats) (Sender.encodeStats stats')
    { stats with totalWritten := stats'.totalRead, totalRead := stats'.totalWritten,
                 totalSize := stats'.totalSize }
  := by
  have hzero : IsI64 0 := by decide
  unfold Receiver.readTotals
  rw [if_pos hp]
  apply (Receiver.reads_readTotal hread).bind
  apply (Receiver.reads_readTotal hwritten).bind
  apply (Receiver.reads_readTotal hsize).bind
  apply (Receiver.reads_readTotal hzero).bind
  exact (Receiver.reads_readTotal hzero).map _

/-! ### Pull -/

/-- What the server of a pull does after its last mark. -/
def Sender.finish (args : SenderArgs) (s : Sender) : Session FsReply Sender := do
  Sender.handleStats args.protocol s.stats
  Sender.readFinalGoodbye args.protocol s

theorem Sender.serve_eq
    (args : SenderArgs) (s : Sender) :
  Sender.serve dig F args s =
    Proc.loop (Sender.round dig F args) s >>= fun s =>
      Sender.lastMark args s >>= Sender.finish args
  := by
  unfold Sender.serve Sender.finish
  rw [Sender.run_eq]
  simp only [bind_assoc]

/-- Read the mark that ends the session. -/
def Sender.lastRead (s : Sender) : Session FsReply Sender := do
  let (_, rx) ← readNdx s.rx
  pure { s with rx := rx }

/-- At protocol 31 the server answers the mark of the client and waits for one more. -/
theorem Sender.comes_finish_new
    {args : SenderArgs} (hp : 31 ≤ args.protocol) (s : Sender) (h : H) :
  Proc.Comes answer (Sender.finish args s) ⟨h, [0], [], [0]⟩ (Sender.lastRead s)
    ⟨h, [], [], [0] ++ (Sender.encodeStats s.stats ++ [0])⟩
  := by
  have hgoodbye : Sender.readFinalGoodbye args.protocol s =
      readNdx s.rx >>= fun x =>
        if 31 ≤ args.protocol ∧ x.1 = ndxDone then
          writeNdx s.tx ndxDone >>= fun tx =>
            flushOk >>= fun _ => Sender.lastRead { s with rx := x.2, tx := tx }
        else
          pure { s with rx := x.2 } := by
    rw [Sender.readFinalGoodbye, if_pos (by omega)]
    rfl
  unfold Sender.finish
  apply ((Sender.returns_handleStats (by omega) s.stats _).comes _).trans
  rw [hgoodbye]
  apply ((reads_readNdx_done s.rx false _ [] rfl).comes _).trans
  rw [if_pos ⟨hp, rfl⟩]
  apply ((writes_writeNdx_done s.tx false _).comes _).trans
  have hflush : Proc.Comes answer (flushOk >>= fun _ => Sender.lastRead s)
      ⟨h, [], [0], [0] ++ Sender.encodeStats s.stats⟩ (Sender.lastRead s) _ :=
    (returns_flushOk false _).comes _
  simpa only [List.nil_append, List.append_assoc] using hflush

theorem Sender.returns_lastRead
    (s : Sender) (h : H) :
  Proc.Returns answer false (Sender.lastRead s) ⟨h, [0], [], []⟩ s ⟨h, [], [], []⟩
  := Proc.Returns.bind (reads_readNdx_done s.rx false _ [] rfl) (Proc.returns_pure _ _)

/-- At protocol 30 the mark of the client is the last one. -/
theorem Sender.returns_finish_old
    {args : SenderArgs} (hp : args.protocol = 30) (s : Sender) (h : H) :
  Proc.Returns answer false (Sender.finish args s) ⟨h, [0], [], [0]⟩ s
    ⟨h, [], [], [0] ++ Sender.encodeStats s.stats⟩
  := by
  have hgoodbye : Sender.readFinalGoodbye args.protocol s =
      readNdx s.rx >>= fun x =>
        if 31 ≤ args.protocol ∧ x.1 = ndxDone then
          writeNdx s.tx ndxDone >>= fun tx =>
            flushOk >>= fun _ => Sender.lastRead { s with rx := x.2, tx := tx }
        else
          pure { s with rx := x.2 } := by
    rw [Sender.readFinalGoodbye, if_pos (by omega)]
    rfl
  unfold Sender.finish
  apply Proc.Returns.bind (Sender.returns_handleStats (by omega) s.stats _)
  rw [hgoodbye]
  apply Proc.Returns.bind (reads_readNdx_done s.rx false _ [] rfl)
  rw [if_neg (by omega)]
  exact Proc.returns_pure _ _

namespace Receiver

variable {args : ReceiverArgs} {sargs : SenderArgs} {J : H → Prop} {source : ℕ → List UInt8}
  {s : Receiver} {ss : Sender} {h : H} {h' k' : H'} {stats : Stats}

/-- The counters of a client after a pull. The server has counted what it has sent, but neither
what it has read nor the sizes of the files. -/
def pulled (stats : Stats) : Stats :=
  { stats with totalWritten := 0, totalRead := stats.totalWritten, totalSize := 0 }

/-- What one end has read the other one has written. Both say the same of the sizes. -/
structure Mirrored (mine theirs : Stats) : Prop where
  read : mine.totalRead = theirs.totalWritten
  written : mine.totalWritten = theirs.totalRead
  size : mine.totalSize = theirs.totalSize

/-- A pull comes to an end at both sides. -/
theorem reaches_pulled
    (hp : args.protocol = 30 ∨ args.protocol = 31) (hagrees : Agrees args sargs)
    (hserves : ServesAll answer sargs J args source) (hh : J h)
    (hcopies : Copies answer' dig args source h' stats k') :
  ∃ f ss s,
    Reaches answer answer' (talk (Sender.serve dig F sargs {}) h (pull dig F args {}) h') f ∧
      Over f (.ok ss) (.ok s) ∧ s.stats = pulled stats ∧ Mirrored s.stats ss.stats ∧
        J f.1.2.host ∧ f.2.2.host = k'
  := by
  have hp₀ : 30 ≤ args.protocol := by omega
  obtain ⟨s, ss, k, rfl, hstep, hk, hreach⟩ :=
    reaches_lastMarks (F := F) hp₀ hagrees hserves hh hcopies
  let g : Receiver → Session FsReply Receiver := fun s =>
    readTotals args.protocol s.stats >>= fun stats => pure { s with stats := stats }
  have hmirrored : Mirrored (pulled s.stats) ss.stats :=
    ⟨hstep.written.symm, hstep.others.1.symm, hstep.others.2.symm⟩
  have hsize : IsI64 0 := by decide
  have hpulled : Proc.Reads answer' (g s) (Sender.encodeStats ss.stats)
      { s with stats := pulled s.stats } := by
    have hread : IsI64 ss.stats.totalRead := hstep.others.1 ▸ hsize
    have htotal : IsI64 ss.stats.totalSize := hstep.others.2 ▸ hsize
    have htotals : Proc.Reads answer' (readTotals args.protocol s.stats)
        (Sender.encodeStats ss.stats) (pulled s.stats) := by
      have h : Proc.Reads answer' (readTotals args.protocol s.stats)
          (Sender.encodeStats ss.stats) _ :=
        reads_readTotals (by omega) s.stats hread hstep.counted htotal
      rwa [hstep.others.1, hstep.others.2, hstep.written] at h
    exact htotals.map _
  let last (extra : List UInt8) : Party UInt8 FsReply H (Except Error Sender) ×
      Party UInt8 FsReply H' (Except Error Receiver) :=
    ((.ret (.ok { ss with phase := 3 }), ⟨k, [], [], []⟩),
      (.ret (.ok { s with stats := pulled s.stats }), ⟨k', extra, [], []⟩))
  have hover : ∀ extra, Reaches answer answer'
      (talk (Sender.serve dig F sargs {}) h (pull dig F args {}) h') (last extra) →
        ∃ f ss s₁, Reaches answer answer'
          (talk (Sender.serve dig F sargs {}) h (pull dig F args {}) h') f ∧
            Over f (.ok ss) (.ok s₁) ∧ s₁.stats = pulled s.stats ∧
              Mirrored s₁.stats ss.stats ∧ J f.1.2.host ∧ f.2.2.host = k' := by
    intro extra h
    exact ⟨last extra, _, _, h, ⟨rfl, rfl, ⟨rfl, rfl⟩, ⟨rfl, rfl⟩⟩, rfl, hmirrored, hk, rfl⟩
  have hstart := hreach (fun s => Sender.lastMark sargs s >>= Sender.finish sargs) g
  rw [← Sender.serve_eq] at hstart
  rcases hp with hp | hp
  · apply hover []
    apply hstart.trans
    exact reaches_parting_old hp hagrees.protocol rfl
      (Sender.returns_finish_old (hagrees.protocol.trans hp) _ k)
      (hpulled false ⟨k', Sender.encodeStats ss.stats, [], []⟩ [] (List.append_nil _).symm)
  · apply hover [0]
    apply hstart.trans
    exact reaches_parting_new (by omega) hagrees.protocol rfl
      (Sender.comes_finish_new (hagrees.protocol ▸ (le_of_eq hp.symm)) _ k)
      (Sender.returns_lastRead _ k)
      (hpulled false ⟨k', Sender.encodeStats ss.stats ++ [0], [], [0]⟩ [0] rfl)

/-- In a pull the client and the server, whatever the timing, come to an end without an error. Then
the destination is as a copy leaves it that has the content of the files at hand, and the counters
of the two ends mirror each other. -/
theorem pull_copies
    (hp : args.protocol = 30 ∨ args.protocol = 31) (hagrees : Agrees args sargs)
    (hserves : ServesAll answer sargs J args source) (hh : J h)
    (hcopies : Copies answer' dig args source h' stats k') :
  ∃ f ss s, Over f (.ok ss) (.ok s) ∧ s.stats = pulled stats ∧ Mirrored s.stats ss.stats ∧
    J f.1.2.host ∧ f.2.2.host = k' ∧
    MustReach answer answer'
      (talk (Sender.serve dig F sargs {}) h (Receiver.pull dig F args {}) h') f
  := by
  obtain ⟨f, ss, s, hreach, hover, hstats, hmirrored, hf, hk⟩ :=
    reaches_pulled hp hagrees hserves hh hcopies
  exact ⟨f, ss, s, hover, hstats, hmirrored, hf, hk, hreach.mustReach hover⟩

/-! A file of one byte is put where there was none. -/

/-- A file of one byte. -/
def oneByte : FileInfo where
  name := [102]
  mode := 0o100644
  size := 1
  hardLinkFirstNdx := -1

/-- A sender that has the file in its root. -/
def byteSource : SenderArgs where
  flist := { files := [oneByte] }
  baseDir := [sep]
  protocol := 31
  checksumSeed := 0
  useZlib := false

/-- A receiver that puts it there, too. -/
def byteTarget : ReceiverArgs where
  flist := { files := [oneByte] }
  destDir := [sep]
  csumType := .md5
  protocol := 31
  checksumSeed := 0

/-- The file system of the sender. -/
def byteDisk : Disk :=
  Disk.blank.create [[102]] { kind := .file [7] }

theorem agrees_byte :
  Agrees byteTarget byteSource
  := ⟨rfl, rfl, rfl, rfl, rfl⟩

theorem servesAll_byte :
  ServesAll Disk.answer byteSource (fun d => ∃ n, d = { byteDisk with calls := n }) byteTarget
    fun _ => [7]
  := by
  intro e he _
  rw [List.mem_singleton.mp he]
  refine ⟨by decide +kernel, oneByte, by decide +kernel, by decide +kernel, by decide, ?_⟩
  rintro _ ⟨n, rfl⟩
  exact ⟨_, ⟨n + 1, rfl⟩, rfl⟩

/-- There is no file that a read could give. -/
def absent (w : Endpoint Disk UInt8) : Act UInt8 FsCall → Bool
  | .host (.readFile path) =>
    match Disk.answer w.host (.readFile path) with
    | some (.ok _, _) => false
    | _ => true
  | _ => true

/-- What a procedure comes to is found by running it. -/
theorem exists_returns
    {α β : Type} {p : Session FsReply α} (hp : Proc.OnlyHosts p) {d : Disk} {n : ℕ} {a : α} {b : β}
    (φ : Disk → β)
    (hrun : (Prog.eval (Endpoint.answer Disk.answer false) n p.run ⟨d, [], [], []⟩).map (fun x =>
      (x.1.toOption, φ x.2.host)) = some (some a, b)) :
  ∃ k, Proc.Returns Disk.answer false p ⟨d, [], [], []⟩ a ⟨k, [], [], []⟩ ∧ φ k = b
  := by
  obtain ⟨⟨r, w⟩, heval, hx⟩ := Option.map_eq_some_iff.mp hrun
  simp only [Prod.mk.injEq] at hx
  obtain ⟨hr, hk⟩ := hx
  cases r with
  | error e => cases hr
  | ok _ =>
      cases hr
      have hends : Proc.Returns Disk.answer false p ⟨d, [], [], []⟩ a w := Prog.ends_of_eval heval
      have hw : w = ⟨w.host, [], [], []⟩ := (hp.frame hends).1
      exact ⟨w.host, hw ▸ hends, hk⟩

/-- Where no file is found to compare with, all that is found can be compared with. -/
theorem compares_absent
    {α : Type} {p : Session FsReply α} {w : Endpoint Disk UInt8} {n : ℕ}
    (hrun : (Prog.eval (Prog.onlyIf absent (Endpoint.answer Disk.answer false)) n p.run w).isSome =
      true) :
  Proc.Meets (compares Disk.answer dig args)
    (Prog.Answers (Endpoint.answer Disk.answer false)) p w
  := by
  obtain ⟨x, heval⟩ := Option.isSome_iff_exists.mp hrun
  intro c w₁ hvisits basis k hread
  obtain ⟨Q, hsafe⟩ := hvisits.safe (Prog.safe_of_ends_onlyIf (Prog.ends_of_eval heval))
  have hno : absent w₁ (.host (.readFile c.dest)) = true := hsafe.1
  simp only [absent, hread] at hno
  cases hno

theorem copies_byte :
  ∃ k', Copies Disk.answer digestsOfZeros byteTarget (fun _ => [7]) Disk.blank
    { numFiles := 1, xferredFiles := 1, createdFiles := 1, totalWritten := 1 } k' ∧
      (k'.inode? [[102]]).map Inode.kind = some (.file [7])
  := by
  obtain ⟨k', hreturns, hkind⟩ : ∃ k', Proc.Returns Disk.answer false
      (copyAll byteTarget (fun _ => [7]) {}) ⟨Disk.blank, [], [], []⟩
      { numFiles := 1, xferredFiles := 1, createdFiles := 1, totalWritten := 1 } ⟨k', [], [], []⟩ ∧
        (k'.inode? [[102]]).map Inode.kind = some (.file [7]) :=
    exists_returns (n := 5) (onlyHosts_copyAll _ _ _)
      (fun d => (d.inode? [[102]]).map Inode.kind) (by decide +kernel)
  exact ⟨k', ⟨hreturns, compares_absent (n := 5) (by decide +kernel)⟩, hkind⟩

/-- The file of the server is at the destination after a pull. -/
theorem pull_copies_byte :
  ∃ f ss s, Over f (.ok ss) (.ok s) ∧ Mirrored s.stats ss.stats ∧
    (f.2.2.host.inode? [[102]]).map Inode.kind = some (.file [7]) ∧
    MustReach Disk.answer Disk.answer
      (talk (Sender.serve digestsOfZeros StoredFlate.codec byteSource {}) byteDisk
        (pull digestsOfZeros StoredFlate.codec byteTarget {}) Disk.blank) f
  := by
  obtain ⟨k', hcopies, hkind⟩ := copies_byte
  obtain ⟨f, ss, s, hover, -, hmirrored, -, hk, hmust⟩ :=
    pull_copies (F := StoredFlate.codec) (.inr rfl) agrees_byte servesAll_byte ⟨0, rfl⟩ hcopies
  exact ⟨f, ss, s, hover, hmirrored, hk ▸ hkind, hmust⟩

end Receiver

/-! ### Push -/

theorem Sender.push_eq
    (args : SenderArgs) (s : Sender) :
  Sender.push dig F args s =
    Proc.loop (Sender.round dig F args) s >>= fun s =>
      Sender.lastMark args s >>= Sender.takeLeave args.protocol
  := by
  unfold Sender.push
  rw [Sender.run_eq]
  simp only [bind_assoc]

theorem Sender.reads_readMark
    {protocol : ℕ} (hp : 30 ≤ protocol) (s : Sender) :
  Proc.Reads answer (Sender.readMark protocol s) [0] s
  := by
  intro closed w rest hw
  apply Proc.Returns.bind (reads_okOrNone (reads_done hp s.rx) closed w rest hw)
  exact Proc.returns_pure _ _

/-- At protocol 31 the client sends one more mark and waits for the last one. -/
theorem Sender.comes_takeLeave_new
    {protocol : ℕ} (hp : 31 ≤ protocol) (s : Sender) (h : H) :
  Proc.Comes answer (Sender.takeLeave protocol s) ⟨h, [0], [], [0]⟩ (Sender.readMark protocol s)
    ⟨h, [], [], [0] ++ [0]⟩
  := by
  have hleave : Sender.takeLeave protocol s =
      Sender.readMark protocol s >>= fun s =>
        writeNdx s.tx ndxDone >>= fun tx =>
          flushOk >>= fun _ => Sender.readMark protocol { s with tx := tx } := by
    unfold Sender.takeLeave
    simp only [if_pos hp, if_pos (by omega : 29 ≤ protocol), if_pos (by omega : 30 ≤ protocol)]
  rw [hleave]
  apply ((Sender.reads_readMark (by omega) s false _ [] rfl).comes _).trans
  apply ((writes_writeNdx_done s.tx false _).comes _).trans
  exact (returns_flushOk false _).comes _

/-- At protocol 30 the mark of the server is the last one. -/
theorem Sender.returns_takeLeave_old
    {protocol : ℕ} (hp : protocol = 30) (s : Sender) (h : H) :
  Proc.Returns answer false (Sender.takeLeave protocol s) ⟨h, [0], [], [0]⟩ s ⟨h, [], [], [0]⟩
  := by
  have hleave : Sender.takeLeave protocol s =
      Sender.readMark protocol s >>= fun s => pure s := by
    rw [hp]
    rfl
  rw [hleave]
  exact Proc.Returns.bind (Sender.reads_readMark (by omega) s false _ [] rfl)
    (Proc.returns_pure _ _)

namespace Receiver

variable {args : ReceiverArgs} {sargs : SenderArgs} {J : H → Prop} {source : ℕ → List UInt8}
  {h : H} {h' k' : H'} {stats : Stats}

/-- A push comes to an end at both sides. -/
theorem reaches_pushed
    (hp : args.protocol = 30 ∨ args.protocol = 31) (hagrees : Agrees args sargs)
    (hserves : ServesAll answer sargs J args source) (hh : J h)
    (hcopies : Copies answer' dig args source h' stats k') :
  ∃ f ss s,
    Reaches answer answer' (talk (Sender.push dig F sargs {}) h (run dig F args {}) h') f ∧
      Over f (.ok ss) (.ok s) ∧ s.stats = stats ∧
        ss.stats.totalWritten = stats.totalWritten ∧ J f.1.2.host ∧ f.2.2.host = k'
  := by
  have hp₀ : 30 ≤ args.protocol := by omega
  obtain ⟨s, ss, k, rfl, hstep, hk, hreach⟩ :=
    reaches_lastMarks (F := F) hp₀ hagrees hserves hh hcopies
  let last (extra : List UInt8) : Party UInt8 FsReply H (Except Error Sender) ×
      Party UInt8 FsReply H' (Except Error Receiver) :=
    ((.ret (.ok { ss with phase := 3 }), ⟨k, [], [], []⟩),
      (.ret (.ok s), ⟨k', extra, [], []⟩))
  have hover : ∀ extra, Reaches answer answer'
      (talk (Sender.push dig F sargs {}) h (run dig F args {}) h') (last extra) →
        ∃ f ss s₁, Reaches answer answer'
          (talk (Sender.push dig F sargs {}) h (run dig F args {}) h') f ∧
            Over f (.ok ss) (.ok s₁) ∧ s₁.stats = s.stats ∧
              ss.stats.totalWritten = s.stats.totalWritten ∧ J f.1.2.host ∧
                f.2.2.host = k' := by
    intro extra h
    exact ⟨last extra, _, _, h, ⟨rfl, rfl, ⟨rfl, rfl⟩, ⟨rfl, rfl⟩⟩, rfl, hstep.written, hk, rfl⟩
  have hstart := hreach
    (fun s => Sender.lastMark sargs s >>= Sender.takeLeave sargs.protocol) pure
  rw [← Sender.push_eq, bind_pure] at hstart
  rcases hp with hp | hp
  · apply hover []
    apply hstart.trans
    exact reaches_parting_old hp hagrees.protocol rfl
      (Sender.returns_takeLeave_old (hagrees.protocol.trans hp) _ k)
      (Proc.returns_pure _ _)
  · apply hover [0]
    apply hstart.trans
    exact reaches_parting_new (by omega) hagrees.protocol rfl
      (Sender.comes_takeLeave_new (hagrees.protocol ▸ (le_of_eq hp.symm)) _ k)
      (Sender.reads_readMark (hagrees.protocol ▸ hp₀) _ false _ [] rfl)
      (Proc.returns_pure _ _)

/-- In a push the client and the server, whatever the timing, come to an end without an error. Then
the destination is as a copy leaves it that has the content of the files at hand. -/
theorem push_copies
    (hp : args.protocol = 30 ∨ args.protocol = 31) (hagrees : Agrees args sargs)
    (hserves : ServesAll answer sargs J args source) (hh : J h)
    (hcopies : Copies answer' dig args source h' stats k') :
  ∃ f ss s, Over f (.ok ss) (.ok s) ∧ s.stats = stats ∧
    ss.stats.totalWritten = stats.totalWritten ∧ J f.1.2.host ∧ f.2.2.host = k' ∧
    MustReach answer answer'
      (talk (Sender.push dig F sargs {}) h (Receiver.run dig F args {}) h') f
  := by
  obtain ⟨f, ss, s, hreach, hover, hstats, hsent, hf, hk⟩ :=
    reaches_pushed hp hagrees hserves hh hcopies
  exact ⟨f, ss, s, hover, hstats, hsent, hf, hk, hreach.mustReach hover⟩

/-- The file of the client is at the destination after a push. -/
theorem push_copies_byte :
  ∃ f ss s, Over f (.ok ss) (.ok s) ∧
    (f.2.2.host.inode? [[102]]).map Inode.kind = some (.file [7]) ∧
    MustReach Disk.answer Disk.answer
      (talk (Sender.push digestsOfZeros StoredFlate.codec byteSource {}) byteDisk
        (run digestsOfZeros StoredFlate.codec byteTarget {}) Disk.blank) f
  := by
  obtain ⟨k', hcopies, hkind⟩ := copies_byte
  obtain ⟨f, ss, s, hover, -, -, -, hk, hmust⟩ :=
    push_copies (F := StoredFlate.codec) (.inr rfl) agrees_byte servesAll_byte ⟨0, rfl⟩ hcopies
  exact ⟨f, ss, s, hover, hk ▸ hkind, hmust⟩

end Receiver
