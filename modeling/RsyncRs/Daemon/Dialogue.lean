import RsyncRs.Daemon.Connection
import RsyncRs.Fs.Call
import RsyncRs.Program.Buffered

/-!
# The dialogue with the daemon

A client greets the daemon, names a module, waits until it is approved, and sends its arguments.
Both ends read lines through a buffer, which they give up before they read anything else. The client
sends its arguments only when the daemon has read its lines, and the daemon answers nothing but a
line, so that there is nothing in the buffers, whatever the timing.
-/

variable {X : Type} {Reply : X → Type} {H H' : Type}
  {answer : H → (x : X) → Option (Reply x × H)}

/-! ### Lines -/

/-- Read one byte more of a line. -/
def lineRound (line : List UInt8) : Session Reply (List UInt8 ⊕ List UInt8) := do
  match ← Proc.attempt readByte with
  | .error _ => pure (.inr line)
  | .ok b =>
    if b = BufReader.newline then pure (.inr (line ++ [b])) else pure (.inl (line ++ [b]))

/-- Read up to and with the next line feed, or to the end. -/
def recvLine : Session Reply (List UInt8) :=
  Proc.loop lineRound []

/-- Read a line of text. -/
def recvText : Session Reply Str := do
  let line ← recvLine
  match Str.fromUtf8 line with
  | some text => pure text
  | none => throw (.io "stream did not contain valid UTF-8")

/-- Send a text over a connection, which has no buffer for what is written. -/
def sendText (text : Str) : Session Reply Unit := do
  writeAll text.bytes
  Proc.flush .brokenPipe

/-! ### The client -/

/-- The number in a text of decimal digits, which a plus sign may precede, when it is less than
`bound`. -/
def parseUnsigned (bound : ℕ) (s : Str) : Option ℕ :=
  let digits := if s.head? = some '+' then s.tail else s
  if digits = [] ∨ ¬ digits.all Char.isDigit then
    none
  else
    let n := digits.foldl (fun n c => n * 10 + (c.toNat - '0'.toNat)) 0
    if n < bound then some n else none

/-- What follows `pre` in the string. -/
def Str.stripPrefix (pre s : Str) : Option Str :=
  if pre <+: s then some (s.drop pre.length) else none

/-- The version in a greeting. -/
def parseGreeting (line : Str) : Option ℕ :=
  (Str.stripPrefix "@RSYNCD: ".toList line).bind fun rest =>
    parseUnsigned 4294967296 (rest.takeWhile fun c => ¬ (c = '.' ∨ c = ' '))

/-- Name the module to a daemon that has greeted. -/
def nameModule (module line : Str) : Session Reply ℕ :=
  match parseGreeting (trimLineEnd line) with
  | none => throw (.other s!"unexpected daemon greeting: {String.ofList (trimLineEnd line)}")
  | some peer =>
    let protocol := min peer protocolVersion
    if protocol < 20 then
      throw (.other s!"remote rsync daemon protocol {peer} is too old (need >= 20)")
    else do
      sendText (module ++ ['\n'])
      pure protocol

/-- What is made of a line in which a daemon answers the name of a module. -/
def takeAnswer (module line : Str) : Session Reply (Unit ⊕ Unit) :=
  if line = [] then
    throw (.other "rsync daemon closed connection before module approval")
  else
    match Str.stripPrefix "@RSYNCD: ".toList (trimLineEnd line) with
    | some rest =>
      if rest = "OK".toList then
        pure (.inr ())
      else if rest = "EXIT".toList then
        throw (.other "rsync daemon closed listing channel without granting access")
      else if "AUTHREQD ".toList <+: rest then
        let name := String.ofList module
        throw (.other (s!"rsync daemon requires authentication for module '{name}', " ++
          "but rsync-rs does not yet implement daemon auth. " ++
          "Use SSH transport (host:path) instead."))
      else
        pure (.inl ())
    | none =>
      match Str.stripPrefix "@ERROR".toList (trimLineEnd line) with
      | some err =>
        let name := String.ofList module
        let reason := String.ofList ((Str.stripPrefix [':'] err).getD err)
        throw (.other s!"rsync daemon rejected module '{name}':{reason}")
      | none =>
        -- a message for the user
        pure (.inl ())

/-- Read the lines of the daemon until it approves the module. -/
def awaitApproval (module : Str) : Session Reply Unit :=
  Proc.loop (fun _ => recvText >>= takeAnswer module) ()

/-- Send an argument with a zero behind it. -/
def writeNulArg (arg : Str) : Session Reply Unit := do
  writeAll (Str.bytes arg)
  writeAll [0]

/-- Send the arguments, with one more zero behind them. -/
def sendArgv (args : List Str) : Session Reply Unit := do
  Proc.forEach (fun _ arg => writeNulArg arg) () args
  writeAll [0]
  Proc.flush .brokenPipe

/-- Send the arguments when the buffer was empty. -/
def DaemonClient.takeHeld (serverArgv : List Str) (protocol held : ℕ) :
    Session (BufferedReply FsReply) ℕ :=
  if held ≠ 0 then
    throw (.other s!"daemon sent unexpected bytes after OK: {held} bytes")
  else do
    sendArgv ("--server".toList :: serverArgv)
    pure protocol

/-- Connect to a module of a daemon. This returns the protocol. -/
def DaemonClient.connect (module : Str) (serverArgv : List Str) :
    Session (BufferedReply FsReply) ℕ := do
  sendText (greeting protocolVersion)
  let line ← recvText
  let protocol ← nameModule module line
  awaitApproval module
  let held ← Proc.giveUp
  takeHeld serverArgv protocol held

/-! ### The daemon -/

/-- Read one byte more of the arguments. -/
def argRound (name : List UInt8) (st : ArgState) : Session Reply (ArgState ⊕ List Arg) := do
  match ← Proc.attempt readByte with
  | .error _ => pure (.inr st.args)
  | .ok b =>
    if b = 0 then
      if st.cur = [] then pure (.inr st.args) else pure (.inl (st.endArg name))
    else
      pure (.inl { st with cur := st.cur ++ [b] })

/-- Read the arguments, one byte at a time. -/
def recvArgs (name : List UInt8) : Session Reply (List Arg) :=
  Proc.loop (argRound name) {}

namespace Daemon

variable {α : Type}

/-- The message of the day, if it can be read. -/
def readMotd (cfg : DaemonConfig) : Session FsReply (Option Str) :=
  match cfg.motdFile with
  | none => pure none
  | some path => do
    match ← Fs.readFile path.bytes with
    | .ok text => pure (Str.fromUtf8 text)
    | .error _ => pure none

/-- The client asks the server to send. -/
def isSender (args : List Arg) : Bool :=
  args.any fun a => a = bytesOf "--sender"

/-- Serve the arguments in the directory of the module, when the client may write or does not want
to. -/
def serveArgs (serve : List Arg → Session FsReply α) (m : DaemonModule) (args : List Arg) :
    Session FsReply (Option α) := do
  Fs.orFail (Fs.setCurrentDir m.path.bytes)
  if m.readOnly ∧ ¬ isSender args then do
    sendText ("@ERROR: module '".toList ++ m.name ++ "' is read only\n".toList)
    pure none
  else do
    let a ← serve args
    pure (some a)

/-- Approve the module and read the arguments. -/
def approve (serve : List Arg → Session FsReply α) (m : DaemonModule) :
    Session FsReply (Option α) := do
  sendText "@RSYNCD: OK\n".toList
  let args ← recvArgs m.name.bytes
  serveArgs serve m args

/-- What is done with the name of a module. -/
def openModule (cfg : DaemonConfig) (serve : List Arg → Session FsReply α) (modname : Str) :
    Session FsReply (Option α) :=
  if modname = [] ∨ modname = "#list".toList then do
    let motd ← readMotd cfg
    sendText (listModules cfg motd)
    pure none
  else if modname.head? = some '#' then do
    sendText ("@ERROR: Unknown command '".toList ++ modname ++ "'\n".toList)
    pure none
  else
    match cfg.find modname with
    | none => do
      sendText ("@ERROR: Unknown module '".toList ++ modname ++ "'\n".toList)
      pure none
    | some m => approve serve m

/-- Read what the client says of itself and which module it wants. -/
def takeModule (cfg : DaemonConfig) (serve : List Arg → Session FsReply α) :
    Session (BufferedReply FsReply) (Option α) := do
  let line ← recvText
  if line = [] then
    pure none
  else if ¬ "@RSYNCD:".toList <+: line then do
    sendText "@ERROR: protocol startup error\n".toList
    pure none
  else do
    let modname ← recvText
    if modname = [] then
      pure none
    else do
      -- nothing is read through the buffer any more, so what it holds then is what is lost later
      let _ ← Proc.giveUp
      (openModule cfg serve (trimLineEnd modname)).unbuffered

/-- A connection, in which `serve` is what follows the dialogue. -/
def handleConnection (cfg : DaemonConfig) (serve : List Arg → Session FsReply α) :
    Session (BufferedReply FsReply) (Option α) := do
  sendText (greeting protocolVersion)
  takeModule cfg serve

end Daemon

/-! ### Lines that are read -/

theorem reads_attempt_readByte
    (b : UInt8) :
  Proc.Reads answer (Proc.attempt readByte : Session Reply (Except Error UInt8)) [b] (.ok b)
  := fun closed w rest hw => (Proc.reads_read Error.unexpectedEof b closed w rest hw).attempt

theorem waits_attempt_readByte :
  Proc.Waits (Proc.attempt readByte : Session Reply (Except Error UInt8))
  := Proc.waits_attempt_read _

theorem reads_lineRound
    {line bs : List UInt8} (h : BufReader.newline ∉ bs) :
  Proc.Reads answer (Proc.loop lineRound line : Session Reply (List UInt8))
    (bs ++ [BufReader.newline]) (line ++ bs ++ [BufReader.newline])
  := by
  induction bs generalizing line with
  | nil =>
      apply Proc.reads_loop_done
      apply (reads_attempt_readByte BufReader.newline).bind_nil
      dsimp only
      rw [if_pos rfl, List.append_nil]
      apply Proc.reads_pure
  | cons b bs ih =>
      have hb : b ≠ BufReader.newline := fun hb => h (hb ▸ List.mem_cons_self)
      have hround : Proc.Reads answer (lineRound line : Session Reply (List UInt8 ⊕ List UInt8)) [b]
          (.inl (line ++ [b])) := by
        apply (reads_attempt_readByte b).bind_nil
        dsimp only
        rw [if_neg hb]
        apply Proc.reads_pure
      have hrest : Proc.Reads answer
          (Proc.loop lineRound (line ++ [b]) : Session Reply (List UInt8)) _ _ :=
        ih fun hmem => h (List.mem_cons_of_mem _ hmem)
      rw [List.append_assoc line, List.singleton_append] at hrest
      rw [List.cons_append, ← List.singleton_append]
      exact Proc.reads_loop_again hround hrest

/-- A line is read as it was sent. -/
theorem reads_recvText
    {line : Str} (h : '\n' ∉ line) :
  Proc.Reads answer (recvText : Session Reply Str) (Str.bytes (line ++ ['\n'])) (line ++ ['\n'])
  := by
  have hbytes : Str.bytes (line ++ ['\n']) = line.bytes ++ [BufReader.newline] :=
    Str.bytes_append _ _
  have hline : Proc.Reads answer (recvLine : Session Reply (List UInt8))
      (Str.bytes (line ++ ['\n'])) (Str.bytes (line ++ ['\n'])) := by
    rw [hbytes]
    exact reads_lineRound (Str.newline_not_mem_bytes h)
  apply hline.bind_nil
  rw [Str.fromUtf8_bytes]
  apply Proc.reads_pure

theorem waits_recvText :
  Proc.Waits (recvText : Session Reply Str)
  := (Proc.waits_loop (waits_attempt_readByte.bind _)).bind _

theorem waits_awaitApproval
    (module : Str) :
  Proc.Waits (awaitApproval module : Session Reply Unit)
  := Proc.waits_loop (waits_recvText.bind _)

/-- The daemon approves the module. -/
theorem reads_awaitApproval
    (module : Str) :
  Proc.Reads answer (awaitApproval module : Session Reply Unit) (Str.bytes "@RSYNCD: OK\n".toList)
    ()
  := by
  apply Proc.reads_loop_done
  have hline : Proc.Reads answer (recvText : Session Reply Str) (Str.bytes "@RSYNCD: OK\n".toList)
      "@RSYNCD: OK\n".toList := @reads_recvText _ _ _ answer "@RSYNCD: OK".toList (by decide)
  apply hline.bind_nil
  have htake : takeAnswer module "@RSYNCD: OK\n".toList = (pure (.inr ()) : Session Reply _) := by
    have hstrip : Str.stripPrefix "@RSYNCD: ".toList (trimLineEnd "@RSYNCD: OK\n".toList) =
        some "OK".toList := by decide
    rw [takeAnswer, if_neg (by decide), hstrip]
    exact if_pos rfl
  rw [htake]
  apply Proc.reads_pure

/-! ### Arguments that are read -/

theorem waits_recvArgs
    (name : List UInt8) :
  Proc.Waits (recvArgs name : Session Reply (List Arg))
  := Proc.waits_loop (waits_attempt_readByte.bind _)

/-- The bytes of one argument are read. -/
theorem reads_argRound
    {name : List UInt8} {st : ArgState} {a cs : List UInt8} {args : List Arg} (ha : 0 ∉ a)
    (hne : st.cur ++ a ≠ [])
    (h : Proc.Reads answer
      (Proc.loop (argRound name) (({ st with cur := st.cur ++ a } : ArgState).endArg name) :
        Session Reply (List Arg)) cs args) :
  Proc.Reads answer (Proc.loop (argRound name) st : Session Reply (List Arg)) (a ++ 0 :: cs) args
  := by
  induction a generalizing st with
  | nil =>
      rw [List.append_nil] at h hne
      have hround : Proc.Reads answer
          (argRound name st : Session Reply (ArgState ⊕ List Arg)) [0] (.inl (st.endArg name)) := by
        apply (reads_attempt_readByte 0).bind_nil
        dsimp only
        rw [if_pos rfl, if_neg hne]
        apply Proc.reads_pure
      rw [List.nil_append, ← List.singleton_append]
      exact Proc.reads_loop_again hround h
  | cons b a ih =>
      have hb : b ≠ 0 := fun hb => ha (hb ▸ List.mem_cons_self)
      have hround : Proc.Reads answer
          (argRound name st : Session Reply (ArgState ⊕ List Arg)) [b]
          (.inl { st with cur := st.cur ++ [b] }) := by
        apply (reads_attempt_readByte b).bind_nil
        dsimp only
        rw [if_neg hb]
        apply Proc.reads_pure
      have hcur : st.cur ++ [b] ++ a = st.cur ++ b :: a := by simp
      have hrest : Proc.Reads answer
          (Proc.loop (argRound name) { st with cur := st.cur ++ [b] } :
            Session Reply (List Arg)) (a ++ 0 :: cs) args :=
        ih (fun hmem => ha (List.mem_cons_of_mem _ hmem)) (hcur ▸ hne) (hcur ▸ h)
      rw [List.cons_append, ← List.singleton_append]
      exact Proc.reads_loop_again hround hrest

/-- The arguments are read as the daemon reads all that are sent. -/
theorem reads_recvArgs
    (name : List UInt8) {args : List Arg} (hargs : ∀ a ∈ args, IsArg a) :
  Proc.Reads answer (recvArgs name : Session Reply (List Arg)) (argvBytes args)
    (moduleArgs name false (args.map fromUtf8Lossy))
  := by
  suffices key : ∀ st : ArgState, st.cur = [] → Proc.Reads answer
      (Proc.loop (argRound name) st : Session Reply (List Arg)) (argvBytes args)
      (st.args ++ moduleArgs name st.seenDot (args.map fromUtf8Lossy)) from key {} rfl
  induction args with
  | nil =>
      intro st hcur
      apply Proc.reads_loop_done
      apply (reads_attempt_readByte 0).bind_nil
      dsimp only
      rw [if_pos rfl, if_pos hcur]
      apply Proc.reads_pure_of_eq
      simp [moduleArgs]
  | cons a args ih =>
      intro st hcur
      have ha := hargs a List.mem_cons_self
      have hbytes : argvBytes (a :: args) = a ++ 0 :: argvBytes args := by
        simpa using argvBytes_cons a args []
      rw [hbytes]
      apply reads_argRound ha.noZero (by simpa [hcur] using ha.nonempty)
      have hrest := ih (fun b hb => hargs b (List.mem_cons_of_mem _ hb))
        (({ st with cur := st.cur ++ a } : ArgState).endArg name) rfl
      simpa [ArgState.endArg, hcur, moduleArgs] using hrest

theorem writes_writeNulArg
    (arg : Str) :
  Proc.Writes answer (writeNulArg arg : Session Reply Unit) (arg.bytes ++ [0]) ()
  := (writes_writeAll _).bind (writes_writeAll _)

theorem writes_writeNulArgs
    (args : List Str) :
  Proc.Writes answer (Proc.forEach (fun _ arg => writeNulArg arg) () args : Session Reply Unit)
    ((args.map Str.bytes).flatMap (· ++ [0])) ()
  := by
  induction args with
  | nil => apply Proc.writes_pure
  | cons arg args ih =>
      rw [List.map_cons, List.flatMap_cons]
      exact (writes_writeNulArg arg).bind ih

/-- The arguments are sent. -/
theorem returns_sendArgv
    {closed : Bool} (args : List Str) (w : Endpoint H UInt8) :
  Proc.Returns answer closed (sendArgv args : Session Reply Unit) w ()
    { w with buffer := [], sent := w.sent ++ (w.buffer ++ argvBytes (args.map Str.bytes)) }
  := by
  have hbuffer : w.buffer ++ argvBytes (args.map Str.bytes) =
      w.buffer ++ (args.map Str.bytes).flatMap (· ++ [0]) ++ [0] := (List.append_assoc ..).symm
  rw [hbuffer]
  apply (writes_writeNulArgs args closed w).bind
  apply (writes_writeAll [0] closed _).bind
  apply Proc.returns_flush

theorem returns_sendText
    {closed : Bool} (text : Str) (w : Endpoint H UInt8) :
  Proc.Returns answer closed (sendText text : Session Reply Unit) w ()
    { w with buffer := [], sent := w.sent ++ (w.buffer ++ text.bytes) }
  := (writes_writeAll _ closed w).bind (Proc.returns_flush _ _)

/-! ### The dialogue -/

section Dialogue

open Duplex

variable {answer : H → (x : FsCall) → Option (FsReply x × H)}
  {answer' : H' → (x : FsCall) → Option (FsReply x × H')}

/-- The greeting is read as it was sent. -/
theorem reads_greeting
    (answer : H → (x : X) → Option (Reply x × H)) (version : ℕ) :
  Proc.Reads answer (recvText : Session Reply Str) (greeting version).bytes (greeting version)
  := by
  obtain ⟨line, hgreeting, hline, -⟩ := greeting_eq version
  rw [hgreeting]
  exact reads_recvText hline

/-- A module is named to a daemon of this version. -/
theorem returns_nameModule
    {answer : H → (x : X) → Option (Reply x × H)} {closed : Bool} (module : Str)
    (w : Endpoint H UInt8) :
  Proc.Returns answer closed
    (nameModule module (greeting protocolVersion) : Session Reply ℕ) w protocolVersion
    { w with buffer := [], sent := w.sent ++ (w.buffer ++ Str.bytes (module ++ ['\n'])) }
  := by
  have hparse : parseGreeting (trimLineEnd (greeting protocolVersion)) = some protocolVersion := by
    decide +kernel
  unfold nameModule
  rw [hparse]
  exact (returns_sendText _ w).bind (Proc.returns_pure _ _)

/-- What the client does when it has named the module. -/
def DaemonClient.afterName (module : Str) (serverArgv : List Str) :
    Session (BufferedReply FsReply) ℕ := do
  awaitApproval module
  Proc.giveUp >>= takeHeld serverArgv protocolVersion

/-- The client greets the daemon, reads its greeting and names the module. -/
theorem comes_afterName
    {α : Type} (module : Str) (argv : List Str) (f : ℕ → Session (BufferedReply FsReply) α)
    (answer : H → (x : Buffered FsCall) → Option (BufferedReply FsReply x × H)) (h : H) :
  Proc.Comes answer (DaemonClient.connect module argv >>= f)
    ⟨h, (greeting protocolVersion).bytes, [], []⟩ (DaemonClient.afterName module argv >>= f)
    ⟨h, [], [], (greeting protocolVersion).bytes ++ Str.bytes (module ++ ['\n'])⟩
  := by
  apply Proc.Comes.bind
  unfold DaemonClient.connect
  apply ((returns_sendText _ _).comes _).trans
  apply ((reads_greeting answer protocolVersion false _ [] (List.append_nil _).symm).comes _).trans
  exact (returns_nameModule module _).comes _

/-- The daemon reads the greeting of the client and the name of the module. -/
theorem comes_openModule
    {α : Type} {module : Str} (hmodule : OneLine module) (cfg : DaemonConfig)
    (serve : List Arg → Session FsReply α)
    (answer : H → (x : Buffered FsCall) → Option (BufferedReply FsReply x × H)) (h : H) :
  Proc.Comes answer (Daemon.takeModule cfg serve)
    ⟨h, (greeting protocolVersion).bytes ++ Str.bytes (module ++ ['\n']), [], []⟩
    (Proc.giveUp >>= fun _ => (Daemon.openModule cfg serve module).unbuffered) ⟨h, [], [], []⟩
  := by
  obtain ⟨line, hgreeting, hline, hprefix⟩ := greeting_eq protocolVersion
  have hnil : greeting protocolVersion ≠ [] := by
    rw [hgreeting]
    simp
  unfold Daemon.takeModule
  apply ((reads_greeting answer protocolVersion false _ _ rfl).comes _).trans
  rw [if_neg hnil, if_neg (not_not_intro hprefix)]
  have hname : Proc.Reads answer (recvText : Session (BufferedReply FsReply) Str)
      (Str.bytes (module ++ ['\n'])) (module ++ ['\n']) := reads_recvText hmodule.noNewline
  apply ((hname false ⟨h, Str.bytes (module ++ ['\n']), [], []⟩ []
    (List.append_nil _).symm).comes _).trans
  rw [if_neg (by simp), trimLineEnd_of_oneLine hmodule]
  exact .refl

/-- The client names a module, and the daemon looks it up. -/
theorem reaches_openModule
    {α β : Type} {module : Str} (hmodule : OneLine module) (argv : List Str)
    (f : ℕ → Session (BufferedReply FsReply) α) (cfg : DaemonConfig)
    (serve : List Arg → Session FsReply β)
    (answer : H → (x : Buffered FsCall) → Option (BufferedReply FsReply x × H))
    (answer' : H' → (x : Buffered FsCall) → Option (BufferedReply FsReply x × H')) (h : H)
    (h' : H') :
  Reaches answer answer'
    (talk (DaemonClient.connect module argv >>= f) h (Daemon.handleConnection cfg serve) h')
    (talk (DaemonClient.afterName module argv >>= f) h
      (Proc.giveUp >>= fun _ => (Daemon.openModule cfg serve module).unbuffered) h')
  := by
  have hgreet : Proc.Comes answer' (Daemon.handleConnection cfg serve) ⟨h', [], [], []⟩
      (Daemon.takeModule cfg serve) ⟨h', [], [], (greeting protocolVersion).bytes⟩ :=
    (returns_sendText _ _).comes _
  exact reaches_talk_ask hgreet (comes_afterName module argv f answer h)
    (comes_openModule hmodule cfg serve answer' h')

/-- The daemon reads the arguments without the name of the module. -/
theorem reads_arguments
    {args : List Arg} (hargs : ∀ a ∈ args, IsArg a) (hutf8 : ∀ a ∈ args, isUtf8 a = true)
    (name : List UInt8) :
  Proc.Reads answer (recvArgs name : Session FsReply (List Arg)) (argvBytes args)
    (clientArgs name args)
  := by
  rw [← moduleArgs_false, ← map_fromUtf8Lossy hutf8]
  have hreads : Proc.Reads answer (recvArgs name : Session FsReply (List Arg)) _ _ :=
    reads_recvArgs name hargs
  rwa [map_fromUtf8Lossy hutf8] at hreads ⊢

/-- The daemon approves the module. -/
theorem reaches_approve
    {α β : Type} (module : Str) (argv : List Str) (f : ℕ → Session (BufferedReply FsReply) α)
    (serve : List Arg → Session FsReply β) (m : DaemonModule) (h : H) (h' : H') :
  Reaches (keepsBuffer answer) (keepsBuffer answer')
    (talk (DaemonClient.afterName module argv >>= f) h (Daemon.approve serve m).unbuffered h')
    (talk ((Proc.giveUp >>= DaemonClient.takeHeld argv protocolVersion) >>= f) h
      (recvArgs m.name.bytes >>= Daemon.serveArgs serve m).unbuffered h')
  := by
  have hsend : Proc.Returns (keepsBuffer answer') false
      (sendText "@RSYNCD: OK\n".toList : Session FsReply Unit).unbuffered ⟨h', [], [], []⟩ ()
      ⟨h', [], [], Str.bytes "@RSYNCD: OK\n".toList⟩ := (returns_sendText _ _).unbuffered
  unfold Daemon.approve DaemonClient.afterName
  rw [Proc.unbuffered_bind, bind_assoc]
  exact reaches_talk_send hsend (reads_awaitApproval module)

/-- The client sends its arguments, and the daemon enters the directory of the module. -/
theorem reaches_serve
    {α β : Type} {argv : List Str} {args : List Arg}
    (hsent : args = ("--server".toList :: argv).map Str.bytes) (hargs : ∀ a ∈ args, IsArg a)
    {m : DaemonModule} {h' k' : H'}
    (henter : answer' h' (.setCurrentDir m.path.bytes) = some (.ok (), k'))
    (hserves : m.readOnly → Daemon.isSender (clientArgs m.name.bytes args))
    (f : ℕ → Session (BufferedReply FsReply) α) (serve : List Arg → Session FsReply β) (h : H) :
  Reaches (keepsBuffer answer) (keepsBuffer answer')
    (talk (DaemonClient.takeHeld argv protocolVersion 0 >>= f) h
      (recvArgs m.name.bytes >>= Daemon.serveArgs serve m).unbuffered h')
    (talk (f protocolVersion) h
      (serve (clientArgs m.name.bytes args) >>= fun b => pure (some b)).unbuffered k')
  := by
  have hutf8 : ∀ a ∈ args, isUtf8 a = true := by
    intro a ha
    rw [hsent, List.mem_map] at ha
    obtain ⟨s, -, rfl⟩ := ha
    exact isUtf8_encode s
  have hsend : Proc.Returns (keepsBuffer answer) false
      (sendArgv ("--server".toList :: argv) : Session (BufferedReply FsReply) Unit)
      ⟨h, [], [], []⟩ () ⟨h, [], [], argvBytes args⟩ := hsent ▸ returns_sendArgv _ _
  have hread : Proc.Reads (keepsBuffer answer')
      (recvArgs m.name.bytes : Session FsReply (List Arg)).unbuffered (argvBytes args)
      (clientArgs m.name.bytes args) := (reads_arguments hargs hutf8 _).unbuffered
  have hdir : Proc.Returns (keepsBuffer answer') false
      (Fs.orFail (Fs.setCurrentDir m.path.bytes)).unbuffered ⟨h', [], [], []⟩ ()
      ⟨k', [], [], []⟩ := by
    apply Proc.Returns.unbuffered
    have hcall : Proc.Returns answer' false (Fs.setCurrentDir m.path.bytes) ⟨h', [], [], []⟩
        (.ok ()) ⟨k', [], [], []⟩ := Proc.returns_host henter
    exact hcall.bind (Proc.returns_pure _ _)
  have hempty : DaemonClient.takeHeld argv protocolVersion 0 >>= f =
      sendArgv ("--server".toList :: argv) >>= fun _ => f protocolVersion := by
    rw [DaemonClient.takeHeld, if_neg (not_not_intro rfl), bind_assoc]
    rfl
  rw [Proc.unbuffered_bind, hempty]
  apply (reaches_talk_reply hsend hread).trans
  unfold Daemon.serveArgs
  rw [Proc.unbuffered_bind]
  apply (reaches_talk_right hdir).trans
  rw [if_neg fun hnot => hnot.2 (hserves hnot.1)]

/-- What can be asked of a daemon: a module that it has, named in one line, and arguments that can
be sent. -/
structure Daemon.Accepts (cfg : DaemonConfig) (module : Str) (argv : List Str) (m : DaemonModule)
    (args : List Arg) : Prop where
  oneLine : OneLine module
  addressable : Addressable module
  found : cfg.find module = some m
  areArgs : ∀ a ∈ ("--server".toList :: argv).map Str.bytes, IsArg a
  args_eq : args = clientArgs module.bytes (("--server".toList :: argv).map Str.bytes)

/-- What follows the dialogue is the session of the client with the server that has its arguments,
whatever the timing. -/
theorem comesTo_dialogue
    {α β : Type} {cfg : DaemonConfig} {module : Str} {argv : List Str} {m : DaemonModule}
    {args : List Arg} (hasks : Daemon.Accepts cfg module argv m args) {h : H} {h' k' : H'}
    (henter : answer' h' (.setCurrentDir m.path.bytes) = some (.ok (), k'))
    (hserves : m.readOnly → Daemon.isSender args) {f : ℕ → Session FsReply α}
    {serve : List Arg → Session FsReply β}
    {g : Party UInt8 FsReply H (Except Error α) × Party UInt8 FsReply H' (Except Error β)} {a : α}
    {b : β} (hg : Reaches answer answer' (talk (f protocolVersion) h (serve args) k') g)
    (hover : Over g (.ok a) (.ok b)) :
  ∃ e, Over e (.ok a) (.ok (some b)) ∧ e.1.2.host = g.1.2.host ∧ e.2.2.host = g.2.2.host ∧
    ComesTo answer answer' e
      (talk (DaemonClient.connect module argv >>= fun protocol => (f protocol).unbuffered) h
        (Daemon.handleConnection cfg serve) h')
  := by
  have hname : m.name = module := by
    simpa using List.find?_some hasks.found
  have hargs := hasks.args_eq
  rw [← hname] at hargs
  subst hargs
  -- the end
  have hlast := hg.talk_bind hover pure fun b => (pure (some b) : Session FsReply (Option β))
  rw [bind_pure] at hlast
  obtain ⟨e, he, hover', hleft, hright⟩ :=
    exists_unbuffered hlast ⟨rfl, rfl, hover.leftSide, hover.rightSide⟩
  refine ⟨e, hover', hleft, hright, ?_⟩
  have happroved : Reaches (keepsBuffer answer) (keepsBuffer answer') _ e :=
    (reaches_serve rfl hasks.areArgs henter hserves (fun protocol => (f protocol).unbuffered) serve
      h).trans he
  have hsent : ComesTo answer answer' e
      (talk ((Proc.giveUp >>= DaemonClient.takeHeld argv protocolVersion) >>= fun protocol =>
        (f protocol).unbuffered) h
        (recvArgs m.name.bytes >>= Daemon.serveArgs serve m).unbuffered h') := by
    rw [bind_assoc]
    exact comesTo_giveUp_left ((waits_recvArgs m.name.bytes).bind _).unbuffered
      (comesTo_of_over happroved hover')
  have hcommand : ¬ (module = [] ∨ module = "#list".toList) := by
    rintro (hnil | hlist)
    · exact hasks.addressable.1 hnil
    · exact hasks.addressable.2 (hlist ▸ rfl)
  have hopened : ComesTo answer answer' e
      (talk (DaemonClient.afterName module argv >>= fun protocol => (f protocol).unbuffered) h
        (Daemon.openModule cfg serve module).unbuffered h') := by
    rw [Daemon.openModule, if_neg hcommand, if_neg hasks.addressable.2, hasks.found]
    exact hsent.head (reaches_approve module argv _ serve m h h')
  exact (comesTo_giveUp_right (((waits_awaitApproval module).bind _).bind _) hopened).head
    (reaches_openModule hasks.oneLine argv _ cfg serve _ _ h h')

end Dialogue
