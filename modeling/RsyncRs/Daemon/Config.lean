import RsyncRs.Str

/-!
# The configuration of the daemon

The configuration is a text of lines: settings of the daemon, then sections for the modules with
settings of their own. The name of a module is one line without white space around it.
-/

/-- A module, from its section. -/
structure DaemonModule where
  name : Str
  path : Str
  comment : Str
  readOnly : Bool
  list : Bool
deriving DecidableEq, Repr

structure DaemonConfig where
  motdFile : Option Str := none
  port : Option ℕ := none
  address : Option Str := none
  modules : List DaemonModule := []
deriving DecidableEq, Repr

namespace DaemonConfig

/-- The first module with the name. -/
def find (cfg : DaemonConfig) (name : Str) : Option DaemonModule :=
  cfg.modules.find? (·.name = name)

end DaemonConfig

/-! ### Settings -/

/-- The settings of a section, the last one first. -/
abbrev Settings : Type := List (Str × Str)

/-- Change the letters of ASCII to small ones. -/
def Str.toAsciiLowercase (s : Str) : Str :=
  s.map Char.toLower

def parseBool (s : Str) : Bool :=
  s.trim.toAsciiLowercase ∈ ["yes".toList, "true".toList, "1".toList, "on".toList]

/-- The text between the brackets of the first line of a section. -/
def sectionName (line : Str) : Option Str :=
  match line with
  | '[' :: rest => if rest.getLast? = some ']' then some (Str.trim rest.dropLast) else none
  | _ => none

/-- The key and the value in a line with a setting. -/
def splitSetting (line : Str) : Option (Str × Str) :=
  match line.dropWhile (· ≠ '=') with
  | [] => none
  | _ :: value => some ((Str.trim (line.takeWhile (· ≠ '='))).toAsciiLowercase, Str.trim value)

/-! ### The configuration -/

/-- The section that is read and the configuration before it. -/
structure ParseState where
  cfg : DaemonConfig := {}
  current : Option (Str × Settings) := none
deriving DecidableEq, Repr

/-- Add the module of the section. -/
def ParseState.finish (st : ParseState) : Except Str DaemonConfig :=
  match st.current with
  | none => .ok st.cfg
  | some (name, kv) =>
    match kv.lookup "path".toList with
    | none => .error ("module '".toList ++ name ++ "' missing 'path'".toList)
    | some path =>
      let readOnly := parseBool ((kv.lookup "read only".toList).getD "yes".toList)
      let list := parseBool ((kv.lookup "list".toList).getD "yes".toList)
      let comment := (kv.lookup "comment".toList).getD []
      .ok { st.cfg with
        modules := st.cfg.modules ++ [{ name, path, comment, readOnly, list }] }

/-- A setting of the daemon. -/
def setGlobal (cfg : DaemonConfig) (key val : Str) : DaemonConfig :=
  if key = "motd file".toList then { cfg with motdFile := some val }
  else if key = "port".toList then { cfg with port := parseU16 val }
  else if key = "address".toList then { cfg with address := some val }
  else cfg

/-- One line of the configuration. -/
def parseConfigLine (st : ParseState) (raw : Str) : Except Str ParseState :=
  let line := raw.trim
  if line = [] ∨ line.head? = some '#' ∨ line.head? = some ';' then
    .ok st
  else
    match sectionName line with
    | some name => do
      let cfg ← st.finish
      .ok { cfg, current := some (name, []) }
    | none =>
      match splitSetting line with
      | none => .ok st
      | some (key, val) =>
        match st.current with
        | some (name, kv) => .ok { st with current := some (name, (key, val) :: kv) }
        | none => .ok { st with cfg := setGlobal st.cfg key val }

def parseConfigStr (s : Str) : Except Str DaemonConfig := do
  let st ← s.lines.foldlM parseConfigLine {}
  st.finish

/-! ### The names of the modules -/

/-- The text is one line without white space at its end. -/
structure OneLine (s : Str) : Prop where
  noNewline : '\n' ∉ s
  trimmed : Str.trimEnd s = s

theorem Str.mem_of_mem_trim
    {c : Char} {s : Str} (h : c ∈ Str.trim s) :
  c ∈ s
  := by
  apply (List.dropWhile_sublist isWhitespace).subset
  apply (List.rdropWhile_prefix isWhitespace _).subset h

/-- A line has no line feed. -/
theorem Str.not_mem_lines
    {s line : Str} (h : line ∈ s.lines) :
  '\n' ∉ line
  := by
  have key : ∀ (s line start : Str), '\n' ∉ start → line ∈ Str.lines.go start s → '\n' ∉ line := by
    intro s
    induction s with
    | nil =>
        intro line start hstart hmem
        rw [lines.go] at hmem
        split at hmem
        · cases hmem
        · rwa [List.mem_singleton.mp hmem]
    | cons c s ih =>
        intro line start hstart hmem
        rw [lines.go] at hmem
        split at hmem
        · rw [List.mem_cons] at hmem
          rcases hmem with rfl | hmem
          · split
            · exact fun h => hstart (List.dropLast_subset _ h)
            · exact hstart
          · exact ih line [] (by simp) hmem
        · next hc =>
          apply ih line (start ++ [c]) _ hmem
          rw [List.mem_append, List.mem_singleton]
          rintro (h | h)
          · exact hstart h
          · exact hc h.symm
  exact key s line [] (by simp) h

theorem oneLine_sectionName
    {line name : Str} (hline : '\n' ∉ line) (h : sectionName line = some name) :
  OneLine name
  := by
  unfold sectionName at h
  split at h
  · next rest =>
    split at h
    · cases h
      constructor
      · intro hmem
        exact hline (List.mem_cons_of_mem _
          (List.dropLast_subset _ (Str.mem_of_mem_trim hmem)))
      · exact Str.trimEnd_trimEnd _
    · cases h
  · cases h

/-- The names so far are single lines. -/
structure ParseState.Named (st : ParseState) : Prop where
  modules : ∀ m ∈ st.cfg.modules, OneLine m.name
  current : ∀ name kv, st.current = some (name, kv) → OneLine name

theorem ParseState.Named.finish
    {st : ParseState} (h : st.Named) {cfg : DaemonConfig} (hfinish : st.finish = .ok cfg) :
  ∀ m ∈ cfg.modules, OneLine m.name
  := by
  unfold ParseState.finish at hfinish
  split at hfinish
  · cases hfinish
    exact h.modules
  · next name kv hcurrent =>
    split at hfinish
    · cases hfinish
    · cases hfinish
      intro m hm
      rw [List.mem_append, List.mem_singleton] at hm
      rcases hm with hm | rfl
      · exact h.modules m hm
      · exact h.current name kv hcurrent

theorem modules_setGlobal
    (cfg : DaemonConfig) (key val : Str) :
  (setGlobal cfg key val).modules = cfg.modules
  := by
  unfold setGlobal
  split_ifs <;> rfl

theorem named_parseConfigLine
    {st st' : ParseState} (h : st.Named) {raw : Str} (hraw : '\n' ∉ raw)
    (hline : parseConfigLine st raw = .ok st') :
  st'.Named
  := by
  have htrim : '\n' ∉ Str.trim raw := fun hmem => hraw (Str.mem_of_mem_trim hmem)
  unfold parseConfigLine at hline
  dsimp only at hline
  split at hline
  · cases hline
    exact h
  · split at hline
    · next name hname =>
      cases hfinish : st.finish with
      | error e =>
          rw [hfinish] at hline
          cases hline
      | ok cfg =>
          rw [hfinish] at hline
          cases hline
          constructor
          · exact h.finish hfinish
          · rintro name' kv' hcurrent
            cases hcurrent
            exact oneLine_sectionName htrim hname
    · split at hline
      · cases hline
        exact h
      · split at hline
        · next key val hsetting name kv hcurrent =>
          cases hline
          constructor
          · exact h.modules
          · rintro name' kv' hcurrent'
            cases hcurrent'
            exact h.current name kv hcurrent
        · next hcurrent =>
          cases hline
          constructor
          · dsimp only
            rw [modules_setGlobal]
            exact h.modules
          · exact h.current

/-- The name of a module is a single line. -/
theorem oneLine_of_parseConfigStr
    {s : Str} {cfg : DaemonConfig} (h : parseConfigStr s = .ok cfg) {m : DaemonModule}
    (hm : m ∈ cfg.modules) :
  OneLine m.name
  := by
  have key : ∀ (raws : List Str) (st st' : ParseState), st.Named → (∀ raw ∈ raws, '\n' ∉ raw) →
      raws.foldlM parseConfigLine st = .ok st' → st'.Named := by
    intro raws
    induction raws with
    | nil =>
        intro st st' hst _ hfold
        cases hfold
        exact hst
    | cons raw raws ih =>
        intro st st' hst hraws hfold
        rw [List.foldlM_cons] at hfold
        cases hline : parseConfigLine st raw with
        | error e =>
            rw [hline] at hfold
            cases hfold
        | ok st₁ =>
            rw [hline] at hfold
            exact ih st₁ st' (named_parseConfigLine hst (hraws raw List.mem_cons_self) hline)
              (fun r hr => hraws r (List.mem_cons_of_mem _ hr)) hfold
  unfold parseConfigStr at h
  cases hfold : s.lines.foldlM parseConfigLine {} with
  | error e =>
      rw [hfold] at h
      cases h
  | ok st =>
      rw [hfold] at h
      have hstart : ParseState.Named {} := ⟨by simp, by simp⟩
      exact (key _ _ _ hstart (fun raw => Str.not_mem_lines) hfold).finish h m hm
