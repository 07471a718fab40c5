import Mathlib.Tactic.SplitIfs
import RsyncRs.Daemon.Arguments
import RsyncRs.Daemon.Config
import RsyncRs.Program.BufReader
import RsyncRs.Protocol.Types

/-!
# A connection to the daemon

The server greets the client, reads the greeting of the client and the name of a module as lines,
and then the arguments as they come. The lines are read through a buffer that is given up after
the second one, with all that it still holds.
-/

/-- How a connection ends, or the protocol that is spoken and the arguments with which the rest of
the connection is handed on. -/
inductive Ending where
  /-- The client left. -/
  | closed
  /-- A line is not a string. -/
  | notText
  | startupError
  | listed
  | unknownCommand
  | unknownModule
  /-- The directory of the module cannot be entered. -/
  | noDirectory (args : List Arg) (rest : List UInt8)
  | moduleReadOnly (args : List Arg) (rest : List UInt8)
  | served (protocol : ℕ) (args : List Arg) (rest : List UInt8)
deriving DecidableEq, Repr

/-- What was sent to the client and how the connection ended. -/
structure Connection where
  written : Str
  ending : Ending
deriving DecidableEq, Repr

/-- Read a line of text. -/
def readText (r : BufReader) : Option Str × BufReader :=
  (Str.fromUtf8 r.readLine.1, r.readLine.2)

/-- The string without the line feeds and carriage returns at its end. -/
def trimLineEnd (s : Str) : Str :=
  s.rdropWhile fun c => c = '\n' ∨ c = '\r'

/-- The string with blanks after it up to fifteen characters. -/
def padName (s : Str) : Str :=
  s ++ List.replicate (15 - s.length) ' '

/-- The message of the day, its last line ended, and the modules that may be seen. -/
def listModules (cfg : DaemonConfig) (motd : Option Str) : Str :=
  (match motd with
    | some text => if text.getLast? = some '\n' then text else text ++ ['\n']
    | none => []) ++
  (cfg.modules.filter (·.list)).flatMap
    (fun m => padName m.name ++ '\t' :: m.comment ++ ['\n']) ++ "@RSYNCD: EXIT\n".toList

/-- Enter the directory of the module and hand the connection on, when the client may write or
does not want to. -/
def handOff (enter : Str → Bool) (protocol : ℕ) (m : DaemonModule) (args : List Arg)
    (rest : List UInt8) : Str × Ending :=
  if ¬ enter m.path then
    ([], .noDirectory args rest)
  else if m.readOnly ∧ bytesOf "--sender" ∉ args then
    ("@ERROR: module '".toList ++ m.name ++ "' is read only\n".toList, .moduleReadOnly args rest)
  else
    ([], .served protocol args rest)

/-- The greeting of an end that speaks the version. -/
def greeting (version : ℕ) : Str :=
  "@RSYNCD: ".toList ++ (toString version).toList ++ ".0\n".toList

/-- Approve the module and read the arguments, without the buffer. -/
def serveModule (enter : Str → Bool) (m : DaemonModule) (source : ByteSource) : Str × Ending :=
  let (args, raw) := readArgs m.name.bytes source {}
  let (message, ending) := handOff enter protocolVersion m args raw.bytes
  ("@RSYNCD: OK\n".toList ++ message, ending)

/-- What is done with the name of a module. -/
def openModule (cfg : DaemonConfig) (motd : Option Str) (enter : Str → Bool) (modname : Str)
    (reader : BufReader) : Str × Ending :=
  if modname = [] ∨ modname = "#list".toList then
    (listModules cfg motd, .listed)
  else if modname.head? = some '#' then
    ("@ERROR: Unknown command '".toList ++ modname ++ "'\n".toList, .unknownCommand)
  else
    match cfg.find modname with
    | none => ("@ERROR: Unknown module '".toList ++ modname ++ "'\n".toList, .unknownModule)
    | some m => serveModule enter m reader.source

/-- A connection, from the bytes that the client sends. The daemon may show the message `motd` and
enter the directories in `enter`. -/
def handleConnection (cfg : DaemonConfig) (motd : Option Str) (enter : Str → Bool)
    (stream : ByteSource) : Connection :=
  let hello := greeting protocolVersion
  match readText { source := stream } with
  | (none, _) => { written := hello, ending := .notText }
  | (some line, reader) =>
    if line = [] then
      { written := hello, ending := .closed }
    else if ¬ "@RSYNCD:".toList <+: line then
      { written := hello ++ "@ERROR: protocol startup error\n".toList, ending := .startupError }
    else
      match readText reader with
      | (none, _) => { written := hello, ending := .notText }
      | (some modname, reader) =>
        if modname = [] then
          { written := hello, ending := .closed }
        else
          let (message, ending) := openModule cfg motd enter (trimLineEnd modname) reader
          { written := hello ++ message, ending }

/-! ### Lines of text -/

theorem Str.bytes_append
    (s t : Str) :
  Str.bytes (s ++ t) = s.bytes ++ t.bytes
  := List.flatMap_append

/-- A line feed is the only character with its byte. -/
theorem Str.newline_not_mem_bytes
    {s : Str} (h : '\n' ∉ s) :
  BufReader.newline ∉ s.bytes
  := by
  have key : ∀ c : Char, BufReader.newline ∈ String.utf8EncodeChar c → c = '\n' := by
    intro c hc
    have hv : c.val.toNat = 10 := by
      unfold String.utf8EncodeChar BufReader.newline at hc
      generalize c.val.toNat = v at hc ⊢
      dsimp only at hc
      split_ifs at hc <;>
        simp only [List.mem_cons, List.not_mem_nil, or_false, ← UInt8.toNat_inj,
          UInt8.toNat_ofNat', UInt8.reduceToNat] at hc <;>
        omega
    exact Char.ext (UInt32.toNat.inj hv)
  unfold Str.bytes
  rw [List.mem_flatMap]
  rintro ⟨c, hc, hmem⟩
  rw [key c hmem] at hc
  exact h hc

/-- A line is read as it was sent. -/
theorem readText_of_line
    {r : BufReader} {line : Str} {more : List UInt8}
    (h : r.bytes = Str.bytes (line ++ ['\n']) ++ more) (hline : '\n' ∉ line) :
  readText r = (some (line ++ ['\n']), r.skip (Str.bytes (line ++ ['\n'])).length)
  := by
  have hbytes : Str.bytes (line ++ ['\n']) = line.bytes ++ [BufReader.newline] :=
    Str.bytes_append _ _
  rw [hbytes, List.append_assoc, List.singleton_append] at h
  rw [readText, BufReader.readLine_of_line h (Str.newline_not_mem_bytes hline), ← hbytes,
    Str.fromUtf8_bytes, hbytes, List.length_append, List.length_singleton]

theorem trimLineEnd_of_oneLine
    {name : Str} (h : OneLine name) :
  trimLineEnd (name ++ ['\n']) = name
  := by
  unfold trimLineEnd
  rw [List.rdropWhile_concat_pos _ _ _ (by decide), List.rdropWhile_eq_self_iff]
  intro hne hend
  have htrim := h.trimmed
  unfold Str.trimEnd at htrim
  rw [List.rdropWhile_eq_self_iff] at htrim
  apply htrim hne
  have hcases : name.getLast hne = '\n' ∨ name.getLast hne = '\r' := by simpa using hend
  rcases hcases with hc | hc
  · rw [hc]
    rfl
  · rw [hc]
    rfl

/-- The greeting is one line. -/
theorem greeting_eq
    (v : ℕ) :
  ∃ line, greeting v = line ++ ['\n'] ∧ '\n' ∉ line ∧ "@RSYNCD:".toList <+: greeting v
  := by
  refine ⟨"@RSYNCD: ".toList ++ (toString v).toList ++ ".0".toList, ?_, ?_, ?_⟩
  · unfold greeting
    rw [List.append_assoc _ _ ['\n']]
    rfl
  · have hdigits : '\n' ∉ (toString v).toList := by
      intro hmem
      rw [Nat.toString_eq_ofList_toDigits, String.toList_ofList] at hmem
      exact absurd (Nat.isDigit_of_mem_toDigits (by decide) (by decide) hmem) (by decide)
    rw [List.mem_append, List.mem_append]
    rintro ((h | h) | h)
    · exact absurd h (by decide)
    · exact hdigits h
    · exact absurd h (by decide)
  · unfold greeting
    exact ⟨" ".toList ++ (toString v).toList ++ ".0\n".toList, by simp⟩

/-! ### What the client sends -/

/-- What a client sends that greets with the version `v`, names the module and sends the
arguments and then `rest`. -/
def clientStream (v : ℕ) (name : Str) (args : List Arg) (rest : List UInt8) : List UInt8 :=
  (greeting v).bytes ++ (Str.bytes (name ++ ['\n']) ++ (argvBytes args ++ rest))

/-- How the connection is to end: in the version of the client and with its arguments. -/
def expectedEnding (cfg : DaemonConfig) (enter : Str → Bool) (v : ℕ) (name : Str)
    (args : List Arg) (rest : List UInt8) : Ending :=
  match cfg.find name with
  | none => .unknownModule
  | some m => (handOff enter (min v protocolVersion) m (clientArgs name.bytes args) rest).2

/-- The name of a module that is not a command. -/
def Addressable (name : Str) : Prop :=
  name ≠ [] ∧ name.head? ≠ some '#'

/-- The client may do with the module what it wants to do. -/
def Serves (enter : Str → Bool) (m : DaemonModule) (args : List Arg) : Prop :=
  enter m.path ∧ (m.readOnly → bytesOf "--sender" ∈ args)

/-- The reader after the two lines. -/
def afterLines (v : ℕ) (name : Str) (stream : ByteSource) : BufReader :=
  BufReader.skip ((greeting v).bytes.length + (Str.bytes (name ++ ['\n'])).length)
    { source := stream }

/-- The number of bytes behind the two lines that the buffer has taken from the stream. -/
def overread (v : ℕ) (name : Str) (stream : ByteSource) : ℕ :=
  (afterLines v name stream).buffer.length

theorem handOff_eq_iff
    {enter : Str → Bool} {m : DaemonModule} {p p' : ℕ} {args args' : List Arg}
    {rest rest' : List UInt8} :
  (handOff enter p m args rest).2 = (handOff enter p' m args' rest').2 ↔
    args = args' ∧ rest = rest' ∧ (p = p' ∨ ¬ Serves enter m args')
  := by
  unfold handOff Serves
  by_cases henter : enter m.path = true
  · rw [if_neg (not_not_intro henter), if_neg (not_not_intro henter)]
    by_cases hargs : args = args'
    · subst hargs
      by_cases hwrite : m.readOnly = true ∧ bytesOf "--sender" ∉ args
      · rw [if_pos hwrite, if_pos hwrite]
        simp [hwrite.1, hwrite.2]
      · rw [if_neg hwrite, if_neg hwrite]
        have hserves : m.readOnly = true → bytesOf "--sender" ∈ args := by
          intro h
          by_contra hmem
          exact hwrite ⟨h, hmem⟩
        constructor
        · intro heq
          cases heq
          exact ⟨rfl, rfl, Or.inl rfl⟩
        · rintro ⟨-, rfl, rfl | hnot⟩
          · rfl
          · exact absurd ⟨henter, hserves⟩ hnot
    · have hne : ∀ {e e' : Str × Ending}, (e.2 = .moduleReadOnly args rest ∨
          e.2 = .served p args rest) → (e'.2 = .moduleReadOnly args' rest' ∨
          e'.2 = .served p' args' rest') → e.2 ≠ e'.2 := by
        rintro e e' (h | h) (h' | h') heq <;> rw [h, h'] at heq <;> cases heq <;>
          exact hargs rfl
      constructor
      · intro heq
        refine absurd heq (hne ?_ ?_) <;> split_ifs <;> simp
      · rintro ⟨h, -⟩
        exact absurd h hargs
  · rw [if_pos henter, if_pos henter]
    simp [henter]

/-- The bytes that are left after the two lines. -/
theorem bytes_afterLines
    {v : ℕ} {name : Str} {args : List Arg} {rest : List UInt8} {stream : ByteSource}
    (hstream : stream.bytes = clientStream v name args rest) :
  (afterLines v name stream).source.bytes =
    (argvBytes args ++ rest).drop (overread v name stream)
  := by
  have hbytes : BufReader.bytes { source := stream } =
    (greeting v).bytes ++ (Str.bytes (name ++ ['\n']) ++ (argvBytes args ++ rest)) := hstream
  have hlen := congrArg List.length hbytes
  rw [List.length_append, List.length_append] at hlen
  have hskip : (afterLines v name stream).bytes = argvBytes args ++ rest := by
    rw [afterLines, BufReader.bytes_skip (by omega), hbytes, ← List.append_assoc,
      List.drop_left' (List.length_append)]
  rw [← hskip, BufReader.bytes, overread, List.drop_left]

theorem serveModule_ending
    (enter : Str → Bool) (m : DaemonModule) (source : ByteSource) :
  (serveModule enter m source).2 = (handOff enter protocolVersion m
    (readArgs m.name.bytes source {}).1 (readArgs m.name.bytes source {}).2.bytes).2
  := rfl

/-- The two lines are read. -/
theorem handleConnection_lines
    (cfg : DaemonConfig) (motd : Option Str) (enter : Str → Bool) {v : ℕ} {name : Str}
    (hname : OneLine name) {args : List Arg} {rest : List UInt8} {stream : ByteSource}
    (hstream : stream.bytes = clientStream v name args rest) :
  (handleConnection cfg motd enter stream).ending =
    (openModule cfg motd enter name (afterLines v name stream)).2
  := by
  obtain ⟨line, hgreeting, hline, hprefix⟩ := greeting_eq v
  have hbytes : BufReader.bytes { source := stream } =
    (greeting v).bytes ++ (Str.bytes (name ++ ['\n']) ++ (argvBytes args ++ rest)) := hstream
  have hlen := congrArg List.length hbytes
  rw [List.length_append, List.length_append] at hlen
  have hfirst : readText { source := stream } =
      (some (greeting v), BufReader.skip (greeting v).bytes.length { source := stream }) := by
    rw [hgreeting] at hbytes ⊢
    apply readText_of_line hbytes hline
  have hrest := BufReader.bytes_skip
    (show (greeting v).bytes.length ≤ (BufReader.bytes { source := stream }).length by omega)
  rw [hbytes, List.drop_left] at hrest
  have hsecond := readText_of_line hrest hname.noNewline
  rw [BufReader.skip_skip (by omega)] at hsecond
  have hnil : greeting v ≠ [] := by
    rw [hgreeting]
    simp
  unfold handleConnection
  simp only [hfirst, hsecond, if_neg hnil, if_neg (not_not_intro hprefix),
    List.append_eq_nil_iff, List.cons_ne_nil, and_false, if_false]
  rw [trimLineEnd_of_oneLine hname]
  rfl

/-- How a connection to a module ends. -/
theorem handleConnection_module
    {cfg : DaemonConfig} (motd : Option Str) (enter : Str → Bool) {v : ℕ} {name : Str}
    (hname : OneLine name) (haddress : Addressable name) {m : DaemonModule}
    (hfind : cfg.find name = some m) {args : List Arg} {rest : List UInt8} {stream : ByteSource}
    (hstream : stream.bytes = clientStream v name args rest) :
  let read := splitArgs [] ((argvBytes args ++ rest).drop (overread v name stream))
  (handleConnection cfg motd enter stream).ending =
    (handOff enter protocolVersion m
      (moduleArgs name.bytes false (read.1.map fromUtf8Lossy)) read.2).2
  := by
  intro read
  have hcommand : ¬ (name = [] ∨ name = "#list".toList) := by
    rintro (h | h)
    · exact haddress.1 h
    · apply haddress.2
      rw [h]
      rfl
  have hmodule : m.name = name := by
    simpa using List.find?_some hfind
  obtain ⟨hargs, htail⟩ := readArgs_eq name.bytes (afterLines v name stream).source {}
  rw [bytes_afterLines hstream, List.nil_append] at hargs
  rw [bytes_afterLines hstream] at htail
  rw [handleConnection_lines cfg motd enter hname hstream, openModule, if_neg hcommand,
    if_neg haddress.2, hfind]
  dsimp only
  rw [serveModule_ending, hmodule, hargs, htail]

/-- A name that is a command opens no module. -/
theorem handleConnection_command
    (cfg : DaemonConfig) (motd : Option Str) (enter : Str → Bool) {v : ℕ} {name : Str}
    (hname : OneLine name) (haddress : ¬ Addressable name)
    {args : List Arg} {rest : List UInt8} {stream : ByteSource}
    (hstream : stream.bytes = clientStream v name args rest) :
  (handleConnection cfg motd enter stream).ending = .listed ∨
    (handleConnection cfg motd enter stream).ending = .unknownCommand
  := by
  rw [handleConnection_lines cfg motd enter hname hstream]
  unfold openModule
  by_cases hcommand : name = [] ∨ name = "#list".toList
  · rw [if_pos hcommand]
    exact Or.inl rfl
  · have hhead : name.head? = some '#' := by
      by_contra hhead
      exact haddress ⟨fun h => hcommand (Or.inl h), hhead⟩
    rw [if_neg hcommand, if_pos hhead]
    exact Or.inr rfl

/-- The module of the name may be used with the arguments. -/
def Served (cfg : DaemonConfig) (enter : Str → Bool) (name : Str) (args : List Arg) : Prop :=
  ∃ m, cfg.find name = some m ∧ Serves enter m args

theorem exists_find
    {cfg : DaemonConfig} {m : DaemonModule} (h : m ∈ cfg.modules) :
  ∃ found, cfg.find m.name = some found
  := by
  rw [← Option.isSome_iff_exists, DaemonConfig.find, List.find?_isSome]
  exact ⟨m, h, by simp⟩

/-- A name that is a command does not end in its module. -/
theorem not_expected_of_command
    {cfg : DaemonConfig} (motd : Option Str) (enter : Str → Bool) {v : ℕ} {name : Str}
    (hname : OneLine name) (haddress : ¬ Addressable name) {m : DaemonModule}
    (hfind : cfg.find name = some m) {args : List Arg} {rest : List UInt8} {stream : ByteSource}
    (hstream : stream.bytes = clientStream v name args rest) :
  (handleConnection cfg motd enter stream).ending ≠ expectedEnding cfg enter v name args rest
  := by
  have hother : expectedEnding cfg enter v name args rest ≠ .listed ∧
      expectedEnding cfg enter v name args rest ≠ .unknownCommand := by
    rw [expectedEnding, hfind]
    dsimp only
    unfold handOff
    constructor <;> split_ifs <;> simp
  intro heq
  rcases handleConnection_command cfg motd enter hname haddress hstream with h | h
  · exact hother.1 (heq ▸ h)
  · exact hother.2 (heq ▸ h)

/-- In whichever portions the bytes arrive, the connection ends in the version of the client and
with its arguments exactly when the module can be named, the version of the client is the one that
is spoken or none is spoken, and what the buffer takes from behind the two lines makes no
difference. -/
theorem ends_as_expected_iff
    {text : Str} {cfg : DaemonConfig} (hcfg : parseConfigStr text = .ok cfg) {m : DaemonModule}
    (hm : m ∈ cfg.modules) (motd : Option Str) (enter : Str → Bool) (v : ℕ) {args : List Arg}
    (hargs : ∀ a ∈ args, IsArg a) (hutf8 : ∀ a ∈ args, isUtf8 a = true) (rest : List UInt8)
    (sizes : List ℕ) :
  (handleConnection cfg motd enter ⟨clientStream v m.name args rest, sizes⟩).ending =
      expectedEnding cfg enter v m.name args rest ↔
    Addressable m.name ∧
      (protocolVersion ≤ v ∨ ¬ Served cfg enter m.name (clientArgs m.name.bytes args)) ∧
      Harmless (overread v m.name ⟨clientStream v m.name args rest, sizes⟩) args rest
  := by
  have hname := oneLine_of_parseConfigStr hcfg hm
  obtain ⟨found, hfind⟩ := exists_find hm
  have hversion : protocolVersion = min v protocolVersion ↔ protocolVersion ≤ v := by
    omega
  have hserved : Served cfg enter m.name (clientArgs m.name.bytes args) ↔
      Serves enter found (clientArgs m.name.bytes args) := by
    unfold Served
    simp [hfind]
  by_cases haddress : Addressable m.name
  · rw [expectedEnding, hfind, handleConnection_module motd enter hname haddress hfind rfl,
      handOff_eq_iff, ← splitArgs_drop_iff m.name.bytes hargs hutf8, hversion, hserved]
    simp only [haddress, true_and]
    tauto
  · constructor
    · intro heq
      exact absurd heq (not_expected_of_command motd enter hname haddress hfind rfl)
    · rintro ⟨h, -⟩
      exact absurd h haddress

/-- A module that may be read. -/
def dataModule : DaemonModule where
  name := "data".toList
  path := "/srv/data".toList
  comment := []
  readOnly := true
  list := true

theorem parse_dataModule :
  parseConfigStr "[data]\npath = /srv/data\n".toList = .ok { modules := [dataModule] }
  := by
  decide +kernel

theorem ends_as_expected_lines :
  (handleConnection { modules := [dataModule] } none (fun _ => true)
      ⟨clientStream 31 "data".toList [bytesOf "--sender"] [], [14, 5]⟩).ending =
      expectedEnding { modules := [dataModule] } (fun _ => true) 31 "data".toList
        [bytesOf "--sender"] [] ↔
    Addressable "data".toList ∧
      (protocolVersion ≤ 31 ∨ ¬ Served { modules := [dataModule] } (fun _ => true) "data".toList
        (clientArgs (Str.bytes "data".toList) [bytesOf "--sender"])) ∧
      Harmless (overread 31 "data".toList
        ⟨clientStream 31 "data".toList [bytesOf "--sender"] [], [14, 5]⟩) [bytesOf "--sender"] []
  := ends_as_expected_iff parse_dataModule (m := dataModule) (by simp) none (fun _ => true) 31
    (by simp; exact ⟨by decide, by decide⟩) (by simp; exact isUtf8_ascii (by decide +kernel)) []
    [14, 5]

/-! ### Connections that end otherwise -/

/-- When all comes at once, the buffer takes all of it. -/
theorem overread_at_once
    {v : ℕ} {name : Str} {args : List Arg} {rest : List UInt8}
    (hfits : (clientStream v name args rest).length ≤ BufReader.capacity) :
  overread v name ⟨clientStream v name args rest, []⟩ = (argvBytes args ++ rest).length
  := by
  have hlen := congrArg List.length (show clientStream v name args rest =
    (greeting v).bytes ++ (Str.bytes (name ++ ['\n']) ++ (argvBytes args ++ rest)) from rfl)
  rw [List.length_append, List.length_append] at hlen
  have hdelivery : ByteSource.delivery ⟨clientStream v name args rest, []⟩ BufReader.capacity =
      (clientStream v name args rest).length := by
    unfold ByteSource.delivery
    dsimp only [List.headD_nil]
    omega
  have hfill : BufReader.fillBuf { source := ⟨clientStream v name args rest, []⟩ } =
      { buffer := clientStream v name args rest, source := ⟨[], []⟩ } := by
    rw [BufReader.fillBuf, if_pos rfl, ByteSource.read, hdelivery]
    simp [ByteSource.advance]
  have hsome : (Str.bytes (name ++ ['\n'])).length ≠ 0 := by
    rw [Str.bytes_append, List.length_append]
    exact Nat.ne_of_gt (Nat.succ_le_of_lt (by simp [Str.bytes, String.utf8EncodeChar]))
  unfold overread afterLines
  rw [BufReader.skip_of_le (by omega) (by rw [hfill]; dsimp only; omega), hfill]
  dsimp only
  rw [List.length_drop]
  omega

theorem serves_dataModule :
  Serves (fun _ => true) dataModule (clientArgs (Str.bytes "data".toList) [bytesOf "--sender"])
  := ⟨rfl, fun _ => by decide +kernel⟩

theorem oneLine_data :
  OneLine "data".toList
  := ⟨by decide, by decide⟩

/-- A client that speaks an older version, and one that sends everything at once. -/
theorem not_ends_as_expected :
  (handleConnection { modules := [dataModule] } none (fun _ => true)
      ⟨clientStream 30 "data".toList [bytesOf "--sender"] [], [14, 5]⟩).ending ≠
    expectedEnding { modules := [dataModule] } (fun _ => true) 30 "data".toList
      [bytesOf "--sender"] [] ∧
  (handleConnection { modules := [dataModule] } none (fun _ => true)
      ⟨clientStream 31 "data".toList [bytesOf "--sender"] [], []⟩).ending ≠
    expectedEnding { modules := [dataModule] } (fun _ => true) 31 "data".toList
      [bytesOf "--sender"] []
  := by
  have haddress : Addressable "data".toList := ⟨by decide, by decide⟩
  have hfind : DaemonConfig.find { modules := [dataModule] } "data".toList = some dataModule := rfl
  have hargs : ∀ a ∈ [bytesOf "--sender"], IsArg a := by
    intro a ha
    rw [List.mem_singleton.mp ha]
    exact ⟨by decide, by decide⟩
  have hutf8 : ∀ a ∈ [bytesOf "--sender"], isUtf8 a = true := by
    intro a ha
    rw [List.mem_singleton.mp ha]
    exact isUtf8_ascii (by decide +kernel)
  constructor
  · rw [expectedEnding, hfind, handleConnection_module none _ oneLine_data haddress hfind rfl,
      ne_eq, handOff_eq_iff]
    rintro ⟨-, -, h | h⟩
    · exact absurd h (by decide)
    · exact h serves_dataModule
  · rw [expectedEnding, hfind, handleConnection_module none _ oneLine_data haddress hfind rfl,
      ne_eq, handOff_eq_iff, overread_at_once (by decide +kernel)]
    rintro ⟨hlist, hrest, -⟩
    have hharmless := (splitArgs_drop_iff (Str.bytes "data".toList) hargs hutf8 [] _).mp
      ⟨hlist, hrest⟩
    rcases hharmless with h | ⟨h, -⟩ | ⟨a, ha, ⟨h, -⟩ | ⟨h, -⟩⟩
    · exact absurd h (by decide)
    · exact absurd h (by decide)
    · exact absurd h (by decide)
    · exact absurd h (by decide)
