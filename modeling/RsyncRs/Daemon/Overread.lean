import RsyncRs.Daemon.Dialogue

/-!
# Dialogues in which bytes are lost

The daemon loses what its buffer holds when it gives the buffer up. In a dialogue with a client all
of whose bytes have arrived it says and does what the connection does that reads them through such
a buffer.
-/

open Duplex

variable {X : Type} {Reply : X → Type} {H : Type} {answer : H → (x : X) → Option (Reply x × H)}

/-! ### Lines -/

/-- A line is read, or what there is when the stream ends. -/
theorem returns_recvLine
    (w : Endpoint H UInt8) :
  Proc.Returns answer true (recvLine : Session Reply (List UInt8)) w (BufReader.firstLine w.input)
    { w with input := w.input.drop (BufReader.firstLine w.input).length }
  := by
  suffices key : ∀ (bs line : List UInt8), Proc.Returns answer true
      (Proc.loop lineRound line : Session Reply (List UInt8)) { w with input := bs }
      (line ++ BufReader.firstLine bs)
      { w with input := bs.drop (BufReader.firstLine bs).length } from
    key w.input []
  intro bs
  induction bs with
  | nil =>
      intro line
      rw [BufReader.firstLine, List.append_nil]
      apply Proc.returns_loop_done
      apply (Proc.fails_read Error.unexpectedEof rfl).attempt.bind
      apply Proc.returns_pure
  | cons b bs ih =>
      intro line
      have hread : Proc.Returns answer true
          (Proc.attempt readByte : Session Reply (Except Error UInt8)) { w with input := b :: bs }
          (.ok b) { w with input := bs } := (Proc.returns_read Error.unexpectedEof b rfl).attempt
      rw [BufReader.firstLine]
      by_cases hb : b = BufReader.newline
      · rw [if_pos hb]
        apply Proc.returns_loop_done
        apply hread.bind
        dsimp only
        rw [if_pos hb]
        apply Proc.returns_pure
      · have hround : Proc.Returns answer true (lineRound line : Session Reply _)
            { w with input := b :: bs } (.inl (line ++ [b])) { w with input := bs } := by
          apply hread.bind
          dsimp only
          rw [if_neg hb]
          apply Proc.returns_pure
        have hrest := ih (line ++ [b])
        rw [List.append_assoc, List.singleton_append] at hrest
        rw [if_neg hb]
        exact Proc.returns_loop_again hround hrest

/-- A line is read as a buffered reader reads it. -/
theorem returns_readLine
    {r : BufReader} {w : Endpoint H UInt8} (hinput : w.input = r.bytes) :
  Proc.Returns answer true (recvLine : Session Reply (List UInt8)) w r.readLine.1
    { w with input := r.readLine.2.bytes }
  := by
  obtain ⟨hline, hrest⟩ := BufReader.readLine_eq r
  rw [hline, hrest, ← hinput]
  exact returns_recvLine w

/-- A text is read as the connection reads it. -/
theorem returns_readText
    {r : BufReader} {w : Endpoint H UInt8} {text : Str} (hinput : w.input = r.bytes)
    (h : (readText r).1 = some text) :
  Proc.Returns answer true (recvText : Session Reply Str) w text
    { w with input := (readText r).2.bytes }
  := by
  have htext : Str.fromUtf8 r.readLine.1 = some text := h
  apply (returns_readLine hinput).bind
  rw [htext]
  apply Proc.returns_pure

/-- A line that is no text is an error. -/
theorem fails_readText
    {r : BufReader} {w : Endpoint H UInt8} (hinput : w.input = r.bytes)
    (h : (readText r).1 = none) :
  Proc.Fails answer true (recvText : Session Reply Str) w
    (.io "stream did not contain valid UTF-8") { w with input := (readText r).2.bytes }
  := by
  have htext : Str.fromUtf8 r.readLine.1 = none := h
  apply (returns_readLine hinput).bind_fails
  rw [htext]
  exact Prog.Ends.ret _ _

/-! ### Arguments -/

/-- The arguments are read as the connection reads them. -/
theorem returns_readArgs
    (name : List UInt8) (src : ByteSource) (st : ArgState) (w : Endpoint H UInt8)
    (hinput : w.input = src.bytes) :
  Proc.Returns answer true (Proc.loop (argRound name) st : Session Reply (List Arg)) w
    (readArgs name src st).1 { w with input := (readArgs name src st).2.bytes }
  := by
  induction hn : src.bytes.length generalizing src st w with
  | zero =>
      have hnil := List.length_eq_zero_iff.mp hn
      have hdelivery : src.delivery 1 = 0 := (src.delivery_eq_zero_iff 1).mpr (Or.inr hnil)
      have hstay : ({ w with input := (src.advance 0).bytes } : Endpoint H UInt8) = w := by
        rw [ByteSource.bytes_advance, List.drop_zero, ← hinput]
      rw [readArgs, if_pos hdelivery]
      dsimp only
      rw [hstay]
      apply Proc.returns_loop_done
      apply (Proc.fails_read Error.unexpectedEof (hinput.trans hnil)).attempt.bind
      apply Proc.returns_pure
  | succ n ih =>
      obtain ⟨b, bs, hbytes⟩ := List.exists_cons_of_length_eq_add_one hn
      have hdelivery : src.delivery 1 = 1 := by
        unfold ByteSource.delivery
        omega
      have hrest : (src.advance 1).bytes = bs := by
        rw [ByteSource.bytes_advance, hbytes]
        rfl
      have hlen : (src.advance 1).bytes.length = n := by
        rw [hbytes, List.length_cons] at hn
        rw [hrest]
        omega
      have hread : Proc.Returns answer true
          (Proc.attempt readByte : Session Reply (Except Error UInt8)) w (.ok b)
          { w with input := bs } :=
        (Proc.returns_read Error.unexpectedEof b (hinput.trans hbytes)).attempt
      rw [readArgs, if_neg (by omega), hdelivery, hbytes]
      dsimp only [List.headD_cons]
      by_cases hb : b = 0
      · rw [if_pos hb]
        by_cases hcur : st.cur = []
        · rw [if_pos hcur]
          dsimp only
          rw [hrest]
          apply Proc.returns_loop_done
          apply hread.bind
          dsimp only
          rw [if_pos hb, if_pos hcur]
          apply Proc.returns_pure
        · have hround : Proc.Returns answer true (argRound name st : Session Reply _) w
              (.inl (st.endArg name)) { w with input := bs } := by
            apply hread.bind
            dsimp only
            rw [if_pos hb, if_neg hcur]
            apply Proc.returns_pure
          rw [if_neg hcur]
          have hnext := ih (src.advance 1) (st.endArg name) { w with input := bs } hrest.symm hlen
          exact Proc.returns_loop_again hround hnext
      · have hround : Proc.Returns answer true (argRound name st : Session Reply _) w
            (.inl { st with cur := st.cur ++ [b] }) { w with input := bs } := by
          apply hread.bind
          dsimp only
          rw [if_neg hb]
          apply Proc.returns_pure
        rw [if_neg hb]
        have hnext := ih (src.advance 1) { st with cur := st.cur ++ [b] } { w with input := bs }
          hrest.symm hlen
        exact Proc.returns_loop_again hround hnext

/-! ### Connections -/

section Connections

variable {answer : H → (x : FsCall) → Option (FsReply x × H)} {cfg : DaemonConfig}
  {motd : Option Str} {enter : Str → Bool}

/-- The host shows the message of the day, and the directories of the modules can be entered or
not. -/
structure ShowsModules (answer : H → (x : FsCall) → Option (FsReply x × H)) (cfg : DaemonConfig)
    (motd : Option Str) (enter : Str → Bool) : Prop where
  noMotd : cfg.motdFile = none → motd = none
  motd : ∀ path, cfg.motdFile = some path → ∀ h, ∃ r h',
    answer h (.readFile path.bytes) = some (r, h') ∧ r.toOption.bind Str.fromUtf8 = motd
  enters : ∀ m ∈ cfg.modules, enter m.path = true → ∀ h, ∃ h',
    answer h (.setCurrentDir m.path.bytes) = some (.ok (), h')
  entersNot : ∀ m ∈ cfg.modules, enter m.path = false → ∀ h, ∃ msg h',
    answer h (.setCurrentDir m.path.bytes) = some (.error msg, h')

/-- What a dialogue returns when the connection ends so, with the bytes that are left. -/
def Ending.Gives (rest : List UInt8) : Ending → Except Error (Option (List Arg)) → Prop
  | .notText, r => r = .error (.io "stream did not contain valid UTF-8")
  | .noDirectory _ left, r => (∃ e, r = .error e) ∧ rest = left
  | .moduleReadOnly _ left, r => r = .ok none ∧ rest = left
  | .served _ args left, r => r = .ok (some args) ∧ rest = left
  | _, r => r = .ok none

/-- In the environment `act` the dialogue says the text and comes to the end. -/
def DialogueGives {X : Type} {Reply : X → Type}
    (act : Endpoint H UInt8 → (c : Act UInt8 X) → Answer Reply c → Endpoint H UInt8 → Prop)
    (p : Session Reply (Option (List Arg))) (w : Endpoint H UInt8) (said : Str × Ending) : Prop :=
  ∃ r w', Prog.Ends act p.run w r w' ∧ w'.sent = w.sent ++ said.1.bytes ∧
    said.2.Gives w'.input r

section Rules

variable {X α : Type} {Reply : X → Type}
  {act : Endpoint H UInt8 → (c : Act UInt8 X) → Answer Reply c → Endpoint H UInt8 → Prop}
  {p : Session Reply α} {f : α → Session Reply (Option (List Arg))} {a : α}
  {w w₁ : Endpoint H UInt8} {text : Str} {ending : Ending} {said : Str × Ending}

/-- What was said before is said first. -/
theorem Prog.Ends.gives
    (hp : Prog.Ends act p.run w (.ok a) w₁) (hsent : w₁.sent = w.sent ++ text.bytes)
    (h : DialogueGives act (f a) w₁ said) :
  DialogueGives act (p >>= f) w (text ++ said.1, said.2)
  := by
  obtain ⟨r, w', hends, hsaid, hgives⟩ := h
  refine ⟨r, w', Prog.Ends.bind hp hends, ?_, hgives⟩
  rw [hsaid, hsent, List.append_assoc, ← Str.bytes_append]

theorem Prog.Ends.givesNext
    (hp : Prog.Ends act p.run w (.ok a) w₁) (hsent : w₁.sent = w.sent)
    (h : DialogueGives act (f a) w₁ said) :
  DialogueGives act (p >>= f) w said
  := hp.gives (hsent.trans (List.append_nil _).symm : w₁.sent = w.sent ++ Str.bytes []) h

theorem gives_nothing
    {r : Except Error (Option (List Arg))} {q : Session Reply (Option (List Arg))}
    (hq : Prog.Ends act q.run w r w₁) (hsent : w₁.sent = w.sent) (h : ending.Gives w₁.input r) :
  DialogueGives act q w ([], ending)
  := ⟨r, w₁, hq, hsent.trans (List.append_nil _).symm, h⟩

end Rules

theorem gives_text
    {X : Type} {Reply : X → Type} {answer : H → (x : X) → Option (Reply x × H)}
    {w : Endpoint H UInt8} (hbuffer : w.buffer = []) (text : Str) {ending : Ending}
    (h : ending.Gives w.input (.ok none)) :
  DialogueGives (Prog.Answers (Endpoint.answer answer true))
    (sendText text >>= fun _ => pure none : Session Reply (Option (List Arg))) w (text, ending)
  := by
  refine ⟨.ok none, _, (returns_sendText text w).bind (Proc.returns_pure none _), ?_, h⟩
  rw [hbuffer, List.nil_append]

theorem returns_readMotd
    (hhost : ShowsModules answer cfg motd enter) (w : Endpoint H UInt8) :
  ∃ h', Proc.Returns answer true (Daemon.readMotd cfg) w motd { w with host := h' }
  := by
  rw [Daemon.readMotd]
  cases hfile : cfg.motdFile with
  | none =>
      rw [hhost.noMotd hfile]
      exact ⟨w.host, Proc.returns_pure none w⟩
  | some path =>
      obtain ⟨r, h', hanswer, hmotd⟩ := hhost.motd path hfile w.host
      refine ⟨h', (Proc.returns_host hanswer).bind ?_⟩
      cases r with
      | error msg =>
          rw [← hmotd]
          exact Proc.returns_pure _ _
      | ok text =>
          rw [← hmotd]
          exact Proc.returns_pure _ _

theorem isSender_iff
    (args : List Arg) :
  Daemon.isSender args = true ↔ bytesOf "--sender" ∈ args
  := by
  simp only [Daemon.isSender, List.any_eq_true, decide_eq_true_eq, exists_eq_right]

/-- The arguments are served as the connection hands them on. -/
theorem gives_serveArgs
    (hhost : ShowsModules answer cfg motd enter) {m : DaemonModule} (hm : m ∈ cfg.modules)
    (args : List Arg) {w : Endpoint H UInt8} (hbuffer : w.buffer = []) (protocol : ℕ) :
  DialogueGives (Prog.Answers (Endpoint.answer answer true)) (Daemon.serveArgs pure m args) w
    (handOff enter protocol m args w.input)
  := by
  unfold Daemon.serveArgs handOff
  cases henter : enter m.path with
  | false =>
      obtain ⟨msg, h', hanswer⟩ := hhost.entersNot m hm henter w.host
      have hfails : Proc.Fails answer true (Fs.orFail (Fs.setCurrentDir m.path.bytes)) w (.io msg)
          { w with host := h' } :=
        (Proc.returns_host hanswer).bind_fails (Prog.Ends.ret _ _)
      rw [if_pos Bool.false_ne_true]
      exact ⟨_, _, hfails.bind, (List.append_nil _).symm, ⟨_, rfl⟩, rfl⟩
  | true =>
      obtain ⟨h', hanswer⟩ := hhost.enters m hm henter w.host
      have hentered : Proc.Returns answer true (Fs.orFail (Fs.setCurrentDir m.path.bytes)) w ()
          { w with host := h' } := (Proc.returns_host hanswer).bind (Proc.returns_pure () _)
      rw [if_neg (not_not_intro rfl)]
      apply hentered.givesNext rfl
      have hsender := isSender_iff args
      by_cases hwrite : m.readOnly = true ∧ bytesOf "--sender" ∉ args
      · rw [if_pos hwrite, if_pos ⟨hwrite.1, hsender.not.mpr hwrite.2⟩]
        apply gives_text
        · exact hbuffer
        · exact ⟨rfl, rfl⟩
      · rw [if_neg hwrite, if_neg fun h => hwrite ⟨h.1, hsender.not.mp h.2⟩]
        exact ⟨_, _, (Proc.returns_pure args _).bind (Proc.returns_pure _ _),
          (List.append_nil _).symm, rfl, rfl⟩

/-- What follows the name of a module is what the connection says and does. -/
theorem gives_openModule
    (hhost : ShowsModules answer cfg motd enter) (modname : Str) (reader : BufReader)
    {w : Endpoint H UInt8} (hbuffer : w.buffer = []) (hinput : w.input = reader.source.bytes) :
  DialogueGives (Prog.Answers (Endpoint.answer answer true)) (Daemon.openModule cfg pure modname) w
    (openModule cfg motd enter modname reader)
  := by
  unfold Daemon.openModule openModule
  split
  · obtain ⟨h', hmotd⟩ := returns_readMotd hhost w
    apply hmotd.givesNext rfl
    apply gives_text
    · exact hbuffer
    · rfl
  split
  · apply gives_text hbuffer
    rfl
  cases hfind : cfg.find modname with
  | none =>
      apply gives_text hbuffer
      rfl
  | some m =>
      have hm : m ∈ cfg.modules := List.mem_of_find?_eq_some hfind
      dsimp only [Daemon.approve, serveModule]
      apply (returns_sendText _ w).gives (by rw [hbuffer, List.nil_append])
      have hargs : Proc.Returns answer true (recvArgs m.name.bytes)
          { w with buffer := [], sent := w.sent ++ (w.buffer ++ Str.bytes "@RSYNCD: OK\n".toList) }
          _ _ := returns_readArgs m.name.bytes reader.source {} _ hinput
      apply hargs.givesNext rfl
      exact gives_serveArgs hhost hm _ rfl protocolVersion

/-- The number of bytes in the buffer when the two lines of the client have been read. -/
def heldAfterLines (stream : ByteSource) : ℕ :=
  (readText (readText { source := stream }).2).2.buffer.length

theorem gives_losesBuffer
    {X : Type} {Reply : X → Type} {answer : H → (x : X) → Option (Reply x × H)} {n : ℕ}
    {p : Session (BufferedReply Reply) (Option (List Arg))} {w : Endpoint H UInt8}
    {said : Str × Ending}
    (h : DialogueGives (Prog.Answers (Endpoint.answer (keepsBuffer answer) true)) p w said) :
  DialogueGives (Prog.Answers (losesBuffer answer true n)) p w said
  := by
  obtain ⟨r, w', hends, hsaid, hgives⟩ := h
  exact ⟨r, w', ends_losesBuffer hends, hsaid, hgives⟩

theorem gives_unbuffered
    {p : Session FsReply (Option (List Arg))} {w : Endpoint H UInt8} {said : Str × Ending}
    (h : DialogueGives (Prog.Answers (Endpoint.answer answer true)) p w said) :
  DialogueGives (Prog.Answers (Endpoint.answer (keepsBuffer answer) true)) p.unbuffered w said
  := by
  obtain ⟨r, w', hends, hsaid, hgives⟩ := h
  exact ⟨r, w', reaches_unbufferedLayer (keepsBuffer answer) hends, hsaid, hgives⟩

/-- What follows the two lines of the client is what the connection says and does. -/
theorem gives_afterLines
    (hhost : ShowsModules answer cfg motd enter) (modname : Str) (reader : BufReader)
    {w : Endpoint H UInt8} (hbuffer : w.buffer = []) (hinput : w.input = reader.bytes) :
  DialogueGives (Prog.Answers (losesBuffer answer true reader.buffer.length))
    (Proc.giveUp >>= fun _ => (Daemon.openModule cfg pure modname).unbuffered) w
    (openModule cfg motd enter modname reader)
  := by
  apply (ends_giveUp reader.buffer.length w).givesNext rfl
  apply gives_losesBuffer
  apply gives_unbuffered
  apply gives_openModule hhost modname reader
  · exact hbuffer
  · rw [hinput]
    exact List.drop_left

/-- What follows the greeting of the daemon is what the connection says and does. -/
theorem gives_takeModule
    (hhost : ShowsModules answer cfg motd enter) (stream : ByteSource) {w : Endpoint H UInt8}
    (hbuffer : w.buffer = []) (hinput : w.input = stream.bytes) :
  ∃ said : Str × Ending,
    DialogueGives (Prog.Answers (losesBuffer answer true (heldAfterLines stream)))
      (Daemon.takeModule cfg pure) w said ∧
    handleConnection cfg motd enter stream = ⟨greeting protocolVersion ++ said.1, said.2⟩
  := by
  have hread : w.input = BufReader.bytes { source := stream } := hinput
  unfold Daemon.takeModule handleConnection heldAfterLines
  rcases hfirst : readText { source := stream } with ⟨line, reader⟩
  cases line with
  | none =>
      have hfails : Proc.Fails (keepsBuffer answer) true
          (recvText : Session (BufferedReply FsReply) Str) w _ _ :=
        fails_readText hread (by rw [hfirst])
      refine ⟨([], .notText), gives_nothing (ends_losesBuffer hfails.bind) rfl rfl, ?_⟩
      rw [List.append_nil]
  | some line =>
      have hline : Proc.Returns (keepsBuffer answer) true
          (recvText : Session (BufferedReply FsReply) Str) w line _ :=
        returns_readText hread (by rw [hfirst])
      rw [hfirst] at hline
      dsimp only
      by_cases hempty : line = []
      · refine ⟨([], .closed), (ends_losesBuffer hline).givesNext rfl ?_, ?_⟩
        · rw [if_pos hempty]
          exact gives_nothing (Prog.Ends.ret _ _) rfl rfl
        · rw [if_pos hempty, List.append_nil]
      by_cases hprefix : "@RSYNCD:".toList <+: line
      swap
      · refine ⟨("@ERROR: protocol startup error\n".toList, .startupError),
          (ends_losesBuffer hline).givesNext rfl ?_, ?_⟩
        · rw [if_neg hempty, if_pos hprefix]
          apply gives_losesBuffer
          apply gives_text
          · exact hbuffer
          · rfl
        · rw [if_neg hempty, if_pos hprefix]
      rcases hsecond : readText reader with ⟨modname, reader'⟩
      cases modname with
      | none =>
          have hfails : Proc.Fails (keepsBuffer answer) true
              (recvText : Session (BufferedReply FsReply) Str)
              { w with input := reader.bytes } _ _ := fails_readText rfl (by rw [hsecond])
          refine ⟨([], .notText), (ends_losesBuffer hline).givesNext rfl ?_, ?_⟩
          · rw [if_neg hempty, if_neg (not_not_intro hprefix)]
            exact gives_nothing (ends_losesBuffer hfails.bind) rfl rfl
          · rw [if_neg hempty, if_neg (not_not_intro hprefix), List.append_nil]
      | some modname =>
          have hname : Proc.Returns (keepsBuffer answer) true
              (recvText : Session (BufferedReply FsReply) Str)
              { w with input := reader.bytes } modname _ := returns_readText rfl (by rw [hsecond])
          rw [hsecond] at hname
          dsimp only
          by_cases hnone : modname = []
          · refine ⟨([], .closed), (ends_losesBuffer hline).givesNext rfl ?_, ?_⟩
            · rw [if_neg hempty, if_neg (not_not_intro hprefix)]
              apply (ends_losesBuffer hname).givesNext rfl
              rw [if_pos hnone]
              exact gives_nothing (Prog.Ends.ret _ _) rfl rfl
            · rw [if_neg hempty, if_neg (not_not_intro hprefix), if_pos hnone, List.append_nil]
          · refine ⟨openModule cfg motd enter (trimLineEnd modname) reader',
              (ends_losesBuffer hline).givesNext rfl ?_, ?_⟩
            · rw [if_neg hempty, if_neg (not_not_intro hprefix)]
              apply (ends_losesBuffer hname).givesNext rfl
              rw [if_neg hnone]
              apply gives_afterLines hhost
              · exact hbuffer
              · rfl
            · rw [if_neg hempty, if_neg (not_not_intro hprefix), if_neg hnone]

/-- When all that the client sends has arrived, and the buffer that is given up holds what the
reader has taken from the stream, then the dialogue says what the connection says and ends as it
does. -/
theorem gives_handleConnection
    (hhost : ShowsModules answer cfg motd enter) (stream : ByteSource) (h : H) :
  DialogueGives (Prog.Answers (losesBuffer answer true (heldAfterLines stream)))
    (Daemon.handleConnection cfg pure) ⟨h, stream.bytes, [], []⟩
    ((handleConnection cfg motd enter stream).written,
      (handleConnection cfg motd enter stream).ending)
  := by
  have hsaid : Proc.Returns (keepsBuffer answer) true
      (sendText (greeting protocolVersion) : Session (BufferedReply FsReply) Unit)
      ⟨h, stream.bytes, [], []⟩ () ⟨h, stream.bytes, [], (greeting protocolVersion).bytes⟩ :=
    returns_sendText _ _
  obtain ⟨said, hgives, hconnection⟩ := gives_takeModule hhost stream
    (rfl : (⟨h, stream.bytes, [], (greeting protocolVersion).bytes⟩ : Endpoint H UInt8).buffer = [])
    rfl
  rw [hconnection]
  exact (ends_losesBuffer hsaid).gives rfl hgives

/-- A connection ends in one of the ways in which the dialogue may end. -/
theorem dialogue_of_connection
    (hhost : ShowsModules answer cfg motd enter) (stream : ByteSource) (h : H) :
  ∃ r w',
    Relation.ReflTransGen
      (fun x y => Prog.Step (Prog.Answers (Endpoint.answer (keepsBuffer answer) true)) x y ∨
        GivesUp x y)
      ((Daemon.handleConnection cfg pure).run, ⟨h, stream.bytes, [], []⟩) (.ret r, w') ∧
    w'.sent = Str.bytes (handleConnection cfg motd enter stream).written ∧
    (handleConnection cfg motd enter stream).ending.Gives w'.input r
  := by
  obtain ⟨r, w', hends, hsent, hgives⟩ := gives_handleConnection hhost stream h
  exact ⟨r, w', Relation.ReflTransGen.mono (fun _ _ => step_or_givesUp) _ _ hends, hsent, hgives⟩

end Connections
