import RsyncRs.Str

/-!
# Remote specifications

How an operand that names another host is read, and the notations that are documented for
it: `rsync://[USER@]HOST[:PORT][/PATH]` and `[USER@]HOST::PATH` for a daemon, and
`[USER@]HOST:PATH` for a remote shell.
-/

/-- A path on another host. -/
structure RemoteSpec where
  user : Option Str
  host : Str
  port : Option ℕ
  path : Str
  isDaemon : Bool
deriving DecidableEq

/-! ### How an operand is read -/

/-- The user before the first `@`, and the host. -/
def splitUserHost (s : Str) : Option Str × Str :=
  match Str.splitOnce '@' s with
  | some (user, host) => (some user, host)
  | none => (none, s)

/-- The user and the host at the start of an authority, and the port. -/
def parseAuthority (authority : Str) : Str × Option ℕ :=
  match Str.splitOnce ']' authority with
  | some (before, after) =>
    let port :=
      match after with
      | ':' :: port => parseU16 port
      | _ => none
    (before ++ [']'], port)
  | none =>
    match Str.rsplitOnce ':' authority with
    | some (before, after) => (before, parseU16 after)
    | none => (authority, none)

/-- Read what follows the prefix of a URL. -/
def parseRsyncUrl (rest : Str) : Option RemoteSpec :=
  let (authority, path) := (Str.splitOnce '/' rest).getD (rest, [])
  let (userHost, port) := parseAuthority authority
  if userHost = [] then
    none
  else
    let (user, host) := splitUserHost userHost
    some { user := user, host := host, port := port, path := path, isDaemon := true }

/-- The prefix of a URL. -/
def urlPrefix : Str :=
  "rsync://".toList

/-- The text before a colon is the letter of a drive. -/
def isDriveLetter : Str → Bool
  | [c] => c.isAlpha
  | _ => false

/-- Read an operand; a local path is none. -/
def parseRemote (s : Str) : Option RemoteSpec :=
  if urlPrefix <+: s then
    parseRsyncUrl (s.drop urlPrefix.length)
  else if s.head? = some '/' ∨ s.head? = some '.' then
    none
  else
    match Str.splitOnce ':' s with
    | some (before, path) =>
      if before = [] ∨ isDriveLetter before then
        none
      else
        let (user, host) := splitUserHost before
        some { user := user, host := host, port := none, path := path, isDaemon := false }
    | none => none

/-! ### The documented notations -/

/-- A host: a name, or an address in brackets, which may contain colons. -/
inductive IsHost : Str → Prop
  | name {h : Str} (hne : h ≠ []) (hslash : '/' ∉ h) (hcolon : ':' ∉ h)
      (hbracket : h.head? ≠ some '[') : IsHost h
  | address {a : Str} (hslash : '/' ∉ a) (hclose : ']' ∉ a) : IsHost ('[' :: (a ++ [']']))

/-- The text is `[USER@]HOST`. -/
inductive HostPart : Str → Option Str → Str → Prop
  | host {h : Str} (hhost : IsHost h) (hat : '@' ∉ h) : HostPart h none h
  | user {u h : Str} (hhost : IsHost h) (hat : '@' ∉ u) (hslash : '/' ∉ u) (hcolon : ':' ∉ u) :
      HostPart (u ++ '@' :: h) (some u) h

/-- The text is `[:PORT]`. -/
inductive PortPart : Str → Option ℕ → Prop
  | none : PortPart [] none
  | port {digits : Str} {n : ℕ} (hdigits : digits.all Char.isDigit)
      (hport : parseU16 digits = some n) : PortPart (':' :: digits) (some n)

/-- The text is `[/PATH]`. -/
inductive PathPart : Str → Str → Prop
  | none : PathPart [] []
  | path (p : Str) : PathPart ('/' :: p) p

/-- The text names a path of a daemon. -/
inductive DaemonForm : Str → RemoteSpec → Prop
  | url {text port path host p : Str} {user : Option Str} {n : Option ℕ}
      (hhost : HostPart text user host) (hport : PortPart port n) (hpath : PathPart path p) :
      DaemonForm (urlPrefix ++ (text ++ (port ++ path)))
        { user := user, host := host, port := n, path := p, isDaemon := true }
  | module {text host : Str} {user : Option Str} (hhost : HostPart text user host)
      (path : Str) :
      DaemonForm (text ++ ':' :: ':' :: path)
        { user := user, host := host, port := none, path := path, isDaemon := true }

/-- The text names a path behind a remote shell. -/
inductive ShellForm : Str → RemoteSpec → Prop
  | path {text host : Str} {user : Option Str} (hhost : HostPart text user host)
      (path : Str) :
      ShellForm (text ++ ':' :: path)
        { user := user, host := host, port := none, path := path, isDaemon := false }

/-- What a text means: the notations of a daemon come first. -/
def Documented (s : Str) (spec : RemoteSpec) : Prop :=
  DaemonForm s spec ∨ (ShellForm s spec ∧ ¬ ∃ d, DaemonForm s d)

/-! ### The notations are unambiguous -/

/-- A host that is cut at a colon is none. -/
theorem IsHost.not_cut
    {h t y : Str} (hh : IsHost h) (heq : h = t ++ ':' :: y) :
  ¬ IsHost t
  := by
  cases hh with
  | name hne hslash hcolon hbracket => simp [heq] at hcolon
  | @address a hslash hclose =>
      intro ht
      cases ht with
      | name hne hslash' hcolon hbracket =>
          cases t with
          | nil => exact hne rfl
          | cons c t =>
              injection heq with hc _
              exact hbracket (by rw [← hc]; rfl)
      | @address b hslash' hclose' =>
          -- the bracket that closes the shorter address would be inside the longer one
          rw [List.cons_append, List.append_assoc] at heq
          injection heq with _ heq
          exact List.cons_ne_nil _ _ (Str.append_cons_inj hclose hclose' heq).2.symm

theorem IsHost.ne_nil
    {h : Str} (hh : IsHost h) :
  h ≠ []
  := by
  cases hh with
  | name hne => exact hne
  | address => apply List.cons_ne_nil

theorem IsHost.slash_notMem
    {h : Str} (hh : IsHost h) :
  '/' ∉ h
  := by
  cases hh with
  | name hne hslash => exact hslash
  | address hslash => simp [hslash]

theorem HostPart.slash_notMem
    {text host : Str} {user : Option Str} (hp : HostPart text user host) :
  '/' ∉ text
  := by
  cases hp with
  | host hhost => exact hhost.slash_notMem
  | user hhost hat hslash => simp [hslash, hhost.slash_notMem]

theorem HostPart.ne_nil
    {text host : Str} {user : Option Str} (hp : HostPart text user host) :
  text ≠ []
  := by
  cases hp with
  | host hhost => exact hhost.ne_nil
  | user => simp

/-- The text of `[USER@]HOST` is split at its first `@`. -/
theorem HostPart.split
    {text host : Str} {user : Option Str} (hp : HostPart text user host) :
  splitUserHost text = (user, host)
  := by
  unfold splitUserHost
  cases hp with
  | host hhost hat => rw [Str.splitOnce_eq_none.mpr hat]
  | user hhost hat => rw [Str.splitOnce_eq_some.mpr ⟨rfl, hat⟩]

/-- What is left of `[USER@]HOST` when it is cut at a colon is none. -/
theorem HostPart.not_cut
    {text host t y : Str} {user : Option Str} (hp : HostPart text user host)
    (heq : text = t ++ ':' :: y) (u : Option Str) (h : Str) :
  ¬ HostPart t u h
  := by
  intro ht
  cases hp with
  | host hhost hat =>
      cases ht with
      | host hhost' => exact hhost.not_cut heq hhost'
      | user => simp [heq] at hat
  | @user u₁ h₁ hhost hat hslash hcolon =>
      cases ht with
      | host hhost' hat' =>
          rcases List.append_eq_append_iff.mp heq with ⟨z, hz, htail⟩ | ⟨z, hz, htail⟩
          · cases z with
            | nil => simp at htail
            | cons c z =>
                injection htail with hc _
                simp [hz, ← hc] at hat'
          · cases z with
            | nil => simp at htail
            | cons c z =>
                injection htail with hc _
                simp [hz, ← hc] at hcolon
      | @user u₂ h₂ hhost' hat' hslash' hcolon' =>
          rw [List.append_assoc, List.cons_append] at heq
          exact hhost.not_cut (Str.append_cons_inj hat hat' heq).2 hhost'

/-- The end of the text, a colon or a slash comes next. -/
def Stops (x : Str) : Prop :=
  ∀ c ∈ x.head?, c = ':' ∨ c = '/'

theorem HostPart.eq_nil_of_append
    {t z y host₁ host₂ : Str} {user₁ user₂ : Option Str} (h₁ : HostPart t user₁ host₁)
    (h₂ : HostPart (t ++ z) user₂ host₂) (hstop : Stops (z ++ y)) :
  z = []
  := by
  cases z with
  | nil => rfl
  | cons c z =>
      exfalso
      rcases hstop c rfl with rfl | rfl
      · exact h₂.not_cut rfl _ _ h₁
      · apply h₂.slash_notMem
        simp

/-- A text starts with one `[USER@]HOST` at most. -/
theorem HostPart.unique
    {t₁ t₂ x₁ x₂ host₁ host₂ : Str} {user₁ user₂ : Option Str}
    (h₁ : HostPart t₁ user₁ host₁) (h₂ : HostPart t₂ user₂ host₂)
    (heq : t₁ ++ x₁ = t₂ ++ x₂) (hx₁ : Stops x₁) (hx₂ : Stops x₂) :
  t₁ = t₂ ∧ x₁ = x₂ ∧ user₁ = user₂ ∧ host₁ = host₂
  := by
  have ht : t₁ = t₂ := by
    rcases List.append_eq_append_iff.mp heq with ⟨z, rfl, rfl⟩ | ⟨z, rfl, rfl⟩
    · rw [h₁.eq_nil_of_append h₂ hx₁, List.append_nil]
    · rw [h₂.eq_nil_of_append h₁ hx₂, List.append_nil]
  subst ht
  have hsplit := h₁.split.symm.trans h₂.split
  refine ⟨rfl, List.append_cancel_left heq, ?_, ?_⟩
  · exact congrArg Prod.fst hsplit
  · exact congrArg Prod.snd hsplit

theorem PortPart.notMem
    {port : Str} {n : Option ℕ} (hport : PortPart port n) {c : Char} (hc : c ≠ ':')
    (hdigit : c.isDigit = false) :
  c ∉ port
  := by
  cases hport with
  | none => simp
  | port hdigits =>
      intro hmem
      rcases List.mem_cons.mp hmem with h | h
      · exact hc h
      · rw [List.all_eq_true.mp hdigits _ h] at hdigit
        cases hdigit

theorem PortPart.unique
    {port : Str} {n₁ n₂ : Option ℕ} (h₁ : PortPart port n₁) (h₂ : PortPart port n₂) :
  n₁ = n₂
  := by
  cases h₁ with
  | none =>
      cases h₂
      rfl
  | port hdigits hport =>
      cases h₂ with
      | port hdigits' hport' => exact hport.symm.trans hport'

theorem PortPart.stops
    {port path p : Str} {n : Option ℕ} (hport : PortPart port n) (hpath : PathPart path p) :
  Stops (port ++ path)
  := by
  intro c hc
  cases hport with
  | none =>
      cases hpath with
      | none => cases hc
      | path =>
          cases hc
          right
          rfl
  | port =>
      cases hc
      left
      rfl

/-- The path starts after the first slash. -/
theorem PathPart.split
    {a path p : Str} (hpath : PathPart path p) (ha : '/' ∉ a) :
  (Str.splitOnce '/' (a ++ path)).getD (a ++ path, []) = (a, p)
  := by
  cases hpath with
  | none =>
      rw [List.append_nil, Str.splitOnce_eq_none.mpr ha]
      rfl
  | path =>
      rw [Str.splitOnce_eq_some.mpr ⟨rfl, ha⟩]
      rfl

/-- The name of the scheme of a URL reads like a host. -/
theorem hostPart_scheme :
  HostPart "rsync".toList none "rsync".toList
  := HostPart.host (IsHost.name (by decide) (by decide) (by decide) (by decide)) (by decide)

/-- A text that starts like a URL has no two colons after its first `[USER@]HOST`. -/
theorem HostPart.not_url
    {text host path rest : Str} {user : Option Str} (hp : HostPart text user host) :
  text ++ ':' :: ':' :: path ≠ urlPrefix ++ rest
  := by
  intro heq
  have hurl : urlPrefix ++ rest = "rsync".toList ++ ':' :: '/' :: '/' :: rest := rfl
  rw [hurl] at heq
  obtain ⟨-, htail, -⟩ := hp.unique hostPart_scheme heq (by simp [Stops]) (by simp [Stops])
  simp at htail

/-- A text names one path of a daemon at most. -/
theorem daemonForm_unique
    {s : Str} {x y : RemoteSpec} (hx : DaemonForm s x) (hy : DaemonForm s y) :
  x = y
  := by
  generalize hs : s = t at hy
  cases hx with
  | @url text port path host p user n hhost hport hpath =>
      cases hy with
      | @url text' port' path' host' p' user' n' hhost' hport' hpath' =>
          obtain ⟨-, htail, rfl, rfl⟩ := hhost.unique hhost' (List.append_cancel_left hs)
            (hport.stops hpath) (hport'.stops hpath')
          have h₁ := hpath.split (hport.notMem (by decide) (by decide))
          rw [htail, hpath'.split (hport'.notMem (by decide) (by decide))] at h₁
          cases h₁
          rw [hport.unique hport']
      | module hhost' path' => exact absurd hs.symm hhost'.not_url
  | module hhost path =>
      cases hy with
      | url => exact absurd hs hhost.not_url
      | module hhost' path' =>
          obtain ⟨-, htail, rfl, rfl⟩ := hhost.unique hhost' hs (by simp [Stops])
            (by simp [Stops])
          cases htail
          rfl

theorem shellForm_unique
    {s : Str} {x y : RemoteSpec} (hx : ShellForm s x) (hy : ShellForm s y) :
  x = y
  := by
  generalize hs : s = t at hy
  cases hx with
  | path hhost path =>
      cases hy with
      | path hhost' path' =>
          obtain ⟨-, htail, rfl, rfl⟩ := hhost.unique hhost' hs (by simp [Stops])
            (by simp [Stops])
          cases htail
          rfl

/-- A text has one meaning at most. -/
theorem documented_unique
    {s : Str} {x y : RemoteSpec} (hx : Documented s x) (hy : Documented s y) :
  x = y
  := by
  rcases hx with hx | ⟨hx, hnot⟩
  · rcases hy with hy | ⟨-, hnot⟩
    · exact daemonForm_unique hx hy
    · exact absurd ⟨x, hx⟩ hnot
  · rcases hy with hy | ⟨hy, -⟩
    · exact absurd ⟨y, hy⟩ hnot
    · exact shellForm_unique hx hy

/-! ### How the notations are read -/

theorem splitUserHost_inj
    {s t : Str} (h : splitUserHost s = splitUserHost t) :
  s = t
  := by
  unfold splitUserHost at h
  cases hs : Str.splitOnce '@' s with
  | none =>
      cases ht : Str.splitOnce '@' t with
      | none =>
          rw [hs, ht] at h
          exact congrArg Prod.snd h
      | some r =>
          rw [hs, ht] at h
          exact absurd (congrArg Prod.fst h).symm (Option.some_ne_none _)
  | some q =>
      cases ht : Str.splitOnce '@' t with
      | none =>
          rw [hs, ht] at h
          exact absurd (congrArg Prod.fst h) (Option.some_ne_none _)
      | some r =>
          obtain ⟨before, after⟩ := q
          obtain ⟨before', after'⟩ := r
          rw [hs, ht] at h
          cases h
          rw [(Str.splitOnce_eq_some.mp hs).1, (Str.splitOnce_eq_some.mp ht).1]

/-- A colon in `[USER@]HOST` is between brackets. -/
theorem HostPart.colon_notMem
    {text host : Str} {user : Option Str} (hp : HostPart text user host) (h : ']' ∉ text) :
  ':' ∉ text
  := by
  cases hp with
  | host hhost =>
      cases hhost with
      | name hne hslash hcolon => exact hcolon
      | address => simp at h
  | user hhost hat hslash hcolon =>
      cases hhost with
      | name hne hslash' hcolon' => simp [hcolon, hcolon']
      | address => simp at h

/-- An authority is read as documented when no bracket closes inside `[USER@]HOST`. -/
theorem parseAuthority_form
    {text port host : Str} {user : Option Str} {n : Option ℕ}
    (hhost : HostPart text user host) (hport : PortPart port n)
    (hclose : ']' ∉ text.dropLast) :
  parseAuthority (text ++ port) = (text, n)
  := by
  unfold parseAuthority
  by_cases hmem : ']' ∈ text
  · have hlast : text = text.dropLast ++ [']'] := by
      have hsplit := (List.dropLast_append_getLast hhost.ne_nil).symm
      rw [hsplit] at hmem
      rcases List.mem_append.mp hmem with h | h
      · exact absurd h hclose
      · rw [List.mem_singleton.mp h]
        exact hsplit
    have hcut : Str.splitOnce ']' (text ++ port) = some (text.dropLast, port) := by
      apply Str.splitOnce_eq_some.mpr
      refine ⟨?_, hclose⟩
      conv_lhs => rw [hlast]
      rw [List.append_assoc]
      rfl
    rw [hcut]
    dsimp only
    rw [← hlast]
    cases hport with
    | none => rfl
    | port hdigits hport => exact congrArg (Prod.mk text) hport
  · have hnone : Str.splitOnce ']' (text ++ port) = none := by
      apply Str.splitOnce_eq_none.mpr
      simp [hmem, hport.notMem]
    rw [hnone]
    dsimp only
    cases hport with
    | none =>
        rw [List.append_nil, Str.rsplitOnce_eq_none.mpr (hhost.colon_notMem hmem)]
    | @port digits n hdigits hport =>
        have hcolon : ':' ∉ digits := by
          intro h
          exact absurd (List.all_eq_true.mp hdigits _ h) (by decide)
        rw [Str.rsplitOnce_eq_some.mpr ⟨rfl, hcolon⟩]
        dsimp only
        rw [hport]

/-- Otherwise the text up to the first bracket that closes is taken for `[USER@]HOST`. -/
theorem parseAuthority_close
    {t y : Str} (h : ']' ∉ t) :
  (parseAuthority (t ++ ']' :: y)).1 = t ++ [']']
  := by
  unfold parseAuthority
  rw [Str.splitOnce_eq_some.mpr ⟨rfl, h⟩]

theorem parseRsyncUrl_append
    {authority path p : Str} (hslash : '/' ∉ authority) (hpath : PathPart path p)
    (hne : (parseAuthority authority).1 ≠ []) :
  parseRsyncUrl (authority ++ path) =
    some
      { user := (splitUserHost (parseAuthority authority).1).1
        host := (splitUserHost (parseAuthority authority).1).2
        port := (parseAuthority authority).2
        path := p
        isDaemon := true }
  := by
  unfold parseRsyncUrl
  rw [hpath.split hslash]
  dsimp only
  rw [if_neg hne]

/-- The operand is read as documented: as what it means, or as a local path if it has no
meaning. -/
def ReadAsDocumented (s : Str) : Prop :=
  ∀ spec, parseRemote s = some spec ↔ Documented s spec

/-- The operands that are read as documented. -/
inductive WellRead (s : Str) : Prop
  /-- A URL, with no bracket that closes inside its `[USER@]HOST`. -/
  | url {text port path host p : Str} {user : Option Str} {n : Option ℕ}
      (hs : s = urlPrefix ++ (text ++ (port ++ path))) (hhost : HostPart text user host)
      (hport : PortPart port n) (hpath : PathPart path p) (hclose : ']' ∉ text.dropLast)
  /-- An absolute path. -/
  | absolute (h : s.head? = some '/')
  /-- A name that starts with a dot, where no `[USER@]HOST` ends at a colon. -/
  | dotted (h : s.head? = some '.')
      (hnot : ¬ ∃ text user host path, s = text ++ ':' :: path ∧ HostPart text user host)
  /-- A name without colons. -/
  | plain (h : ':' ∉ s)
  /-- A name that starts with a colon. -/
  | colon (h : s.head? = some ':')
  /-- A path behind a remote shell: what is before the first colon is `[USER@]HOST`, and
  what is after it starts with no colon. -/
  | shell {before path host : Str} {user : Option Str} (hs : s = before ++ ':' :: path)
      (hcolon : ':' ∉ before) (hurl : ¬ urlPrefix <+: s) (hdot : s.head? ≠ some '.')
      (hhost : HostPart before user host) (hmodule : path.head? ≠ some ':')

theorem readAsDocumented_of_some
    {s : Str} {x : RemoteSpec} (h : parseRemote s = some x) (hx : Documented s x) :
  ReadAsDocumented s
  := by
  intro spec
  rw [h]
  constructor
  · rintro ⟨⟩
    exact hx
  · intro hspec
    rw [documented_unique hx hspec]

theorem readAsDocumented_of_none
    {s : Str} (h : parseRemote s = none)
    (hnot : ¬ ∃ text user host path, s = text ++ ':' :: path ∧ HostPart text user host) :
  ReadAsDocumented s
  := by
  intro spec
  rw [h]
  constructor
  · rintro ⟨⟩
  · intro hspec
    exfalso
    apply hnot
    cases hspec with
    | inl hspec =>
        cases hspec with
        | url => exact ⟨_, _, _, _, rfl, hostPart_scheme⟩
        | module hhost => exact ⟨_, _, _, _, rfl, hhost⟩
    | inr hspec =>
        cases hspec.1 with
        | path hhost => exact ⟨_, _, _, _, rfl, hhost⟩

/-- A text with `[USER@]HOST` before a colon means something. -/
theorem exists_documented
    {text host : Str} {user : Option Str} (hhost : HostPart text user host) (path : Str) :
  ∃ x, Documented (text ++ ':' :: path) x
  := by
  by_cases h : ∃ d, DaemonForm (text ++ ':' :: path) d
  · obtain ⟨d, hd⟩ := h
    exact ⟨d, Or.inl hd⟩
  · exact ⟨_, Or.inr ⟨ShellForm.path hhost path, h⟩⟩

theorem HostPart.not_colon
    {text host : Str} {user : Option Str} (hp : HostPart (':' :: text) user host) :
  False
  := by
  generalize ht : ':' :: text = t at hp
  cases hp with
  | host hhost =>
      cases hhost with
      | name hne hslash hcolon => simp [← ht] at hcolon
      | address => simp at ht
  | @user u h hhost hat hslash hcolon =>
      cases u with
      | nil => simp at ht
      | cons c u =>
          injection ht with hc _
          simp [← hc] at hcolon

/-- The first character of `[USER@]HOST` is neither a slash nor a colon. -/
theorem HostPart.head_ne
    {text host path : Str} {user : Option Str} (hp : HostPart text user host) :
  (text ++ ':' :: path).head? ≠ some '/' ∧ (text ++ ':' :: path).head? ≠ some ':'
  := by
  cases text with
  | nil => exact absurd rfl hp.ne_nil
  | cons c text =>
      have hslash := hp.slash_notMem
      refine ⟨?_, ?_⟩
      · rintro ⟨⟩
        simp at hslash
      · rintro ⟨⟩
        exact hp.not_colon

theorem head_of_urlPrefix
    {s : Str} (h : urlPrefix <+: s) :
  s.head? = some 'r'
  := by
  obtain ⟨rest, rfl⟩ := h
  rfl

theorem parseRemote_local
    {s : Str} (h : s.head? = some '/' ∨ s.head? = some '.') :
  parseRemote s = none
  := by
  have hurl : ¬ urlPrefix <+: s := by
    intro hstart
    rw [head_of_urlPrefix hstart] at h
    revert h
    decide
  unfold parseRemote
  rw [if_neg hurl, if_pos h]

theorem parseRemote_plain
    {s : Str} (h : ':' ∉ s) :
  parseRemote s = none
  := by
  have hurl : ¬ urlPrefix <+: s := by
    intro hstart
    apply h
    apply hstart.subset
    decide
  unfold parseRemote
  rw [if_neg hurl, Str.splitOnce_eq_none.mpr h]
  split
  · rfl
  · rfl

theorem parseRemote_empty_host
    (path : Str) :
  parseRemote (':' :: path) = none
  := by
  have hurl : ¬ urlPrefix <+: ':' :: path := by
    intro hstart
    have h := head_of_urlPrefix hstart
    simp at h
  have hsplit : Str.splitOnce ':' (':' :: path) = some ([], path) :=
    Str.splitOnce_eq_some.mpr ⟨rfl, by simp⟩
  unfold parseRemote
  rw [if_neg hurl, hsplit]
  split
  · rfl
  · rfl

/-- How an operand that is no URL is read. -/
theorem parseRemote_colon
    {before path : Str} (hcolon : ':' ∉ before) (hne : before ≠ [])
    (hdrive : isDriveLetter before = false) (hurl : ¬ urlPrefix <+: before ++ ':' :: path)
    (hslash : (before ++ ':' :: path).head? ≠ some '/')
    (hdot : (before ++ ':' :: path).head? ≠ some '.') :
  parseRemote (before ++ ':' :: path) =
    some
      { user := (splitUserHost before).1
        host := (splitUserHost before).2
        port := none
        path := path
        isDaemon := false }
  := by
  unfold parseRemote
  rw [if_neg hurl, if_neg (not_or.mpr ⟨hslash, hdot⟩),
    Str.splitOnce_eq_some.mpr ⟨rfl, hcolon⟩]
  dsimp only
  rw [if_neg (by simp [hne, hdrive])]

theorem isDriveLetter_eq_false
    {before path : Str}
    (hdrive : ∀ c p, before ++ ':' :: path = c :: ':' :: p → c.isAlpha = false) :
  isDriveLetter before = false
  := by
  unfold isDriveLetter
  split
  · next c => exact hdrive c path rfl
  · rfl

theorem parseRemote_url
    (rest : Str) :
  parseRemote (urlPrefix ++ rest) = parseRsyncUrl rest
  := by
  unfold parseRemote
  rw [if_pos (List.prefix_append _ _), List.drop_left]

theorem WellRead.readAsDocumented
    {s : Str} (hdrive : ∀ c path, s = c :: ':' :: path → c.isAlpha = false) (h : WellRead s) :
  ReadAsDocumented s
  := by
  cases h with
  | @url text port path host p user n hs hhost hport hpath hclose =>
      subst hs
      have hauthority := parseAuthority_form hhost hport hclose
      have hslash : '/' ∉ text ++ port := by
        simp [hhost.slash_notMem, hport.notMem]
      apply readAsDocumented_of_some _ (Or.inl (DaemonForm.url hhost hport hpath))
      rw [parseRemote_url, ← List.append_assoc, parseRsyncUrl_append hslash hpath]
      · rw [hauthority, hhost.split]
      · rw [hauthority]
        exact hhost.ne_nil
  | absolute h =>
      apply readAsDocumented_of_none (parseRemote_local (Or.inl h))
      · rintro ⟨text, user, host, path, rfl, hhost⟩
        exact hhost.head_ne.1 h
  | dotted h hnot =>
      apply readAsDocumented_of_none (parseRemote_local (Or.inr h)) hnot
  | plain h =>
      apply readAsDocumented_of_none (parseRemote_plain h)
      · rintro ⟨text, user, host, path, rfl, hhost⟩
        simp at h
  | colon h =>
      apply readAsDocumented_of_none
      · cases s with
        | nil => cases h
        | cons c path =>
            cases h
            apply parseRemote_empty_host
      · rintro ⟨text, user, host, path, rfl, hhost⟩
        exact hhost.head_ne.2 h
  | @shell before path host user hs hcolon hurl hdot hhost hmodule =>
      subst hs
      apply readAsDocumented_of_some
      · apply parseRemote_colon hcolon hhost.ne_nil (isDriveLetter_eq_false hdrive) hurl
          hhost.head_ne.1 hdot
      · rw [hhost.split]
        right
        refine ⟨ShellForm.path hhost path, ?_⟩
        rintro ⟨d, hd⟩
        generalize hs : before ++ ':' :: path = s at hd
        cases hd with
        | url => exact hurl ⟨_, hs.symm⟩
        | module hhost' path' =>
            obtain ⟨-, htail, -⟩ := hhost.unique hhost' hs (by simp [Stops]) (by simp [Stops])
            cases htail
            exact hmodule rfl

/-- The text that is read for a URL of the documented notation is wrong when a bracket closes
inside its `[USER@]HOST`. -/
theorem notMem_of_parseRsyncUrl
    {text port path host p : Str} {user : Option Str} {n : Option ℕ}
    (hhost : HostPart text user host) (hport : PortPart port n) (hpath : PathPart path p)
    (h : parseRsyncUrl (text ++ (port ++ path)) =
      some { user := user, host := host, port := n, path := p, isDaemon := true }) :
  ']' ∉ text.dropLast
  := by
  intro hmem
  obtain ⟨⟨t, y⟩, hcut⟩ : ∃ r, Str.splitOnce ']' text.dropLast = some r := by
    rw [← Option.ne_none_iff_exists']
    intro hnone
    exact Str.splitOnce_eq_none.mp hnone hmem
  obtain ⟨hdrop, hnot⟩ := Str.splitOnce_eq_some.mp hcut
  have htext : text = t ++ ']' :: (y ++ [text.getLast hhost.ne_nil]) := by
    conv_lhs => rw [← List.dropLast_append_getLast hhost.ne_nil, hdrop]
    simp
  have hslash : '/' ∉ text ++ port := by
    simp [hhost.slash_notMem, hport.notMem]
  have hauthority : (parseAuthority (text ++ port)).1 = t ++ [']'] := by
    rw [htext, List.append_assoc, List.cons_append, parseAuthority_close hnot]
  rw [← List.append_assoc, parseRsyncUrl_append hslash hpath (by simp [hauthority]),
    hauthority] at h
  injection h with h
  injection h with huser hh
  have hsplit : splitUserHost (t ++ [']']) = splitUserHost text := by
    rw [hhost.split, ← huser, ← hh]
  have hlen := congrArg List.length (splitUserHost_inj hsplit)
  rw [htext] at hlen
  simp at hlen

theorem parseRsyncUrl_isDaemon
    {rest : Str} {x : RemoteSpec} (h : parseRsyncUrl rest = some x) :
  x.isDaemon = true
  := by
  unfold parseRsyncUrl at h
  dsimp only at h
  split at h
  · cases h
  · cases h
    rfl

theorem DaemonForm.isDaemon
    {s : Str} {x : RemoteSpec} (h : DaemonForm s x) :
  x.isDaemon = true
  := by
  cases h with
  | url => rfl
  | module => rfl

/-- An operand that is cut at its first colon as documented is well read. -/
theorem wellRead_of_shellForm
    {before path : Str} {x : RemoteSpec} (hcolon : ':' ∉ before)
    (hurl : ¬ urlPrefix <+: before ++ ':' :: path)
    (hdot : (before ++ ':' :: path).head? ≠ some '.')
    (hshell : ShellForm (before ++ ':' :: path) x) (hpath : x.path = path)
    (hnot : ¬ ∃ d, DaemonForm (before ++ ':' :: path) d) :
  WellRead (before ++ ':' :: path)
  := by
  generalize hs : before ++ ':' :: path = s at hshell
  cases hshell with
  | path hhost path' =>
      subst hpath
      have hbefore := List.append_cancel_right hs
      subst hbefore
      apply WellRead.shell rfl hcolon hurl hdot hhost
      intro hhead
      obtain ⟨rest, rfl⟩ := List.head?_eq_some_iff.mp hhead
      exact hnot ⟨_, DaemonForm.module hhost rest⟩

theorem wellRead_of_readAsDocumented
    {s : Str} (hdrive : ∀ c path, s = c :: ':' :: path → c.isAlpha = false)
    (h : ReadAsDocumented s) :
  WellRead s
  := by
  by_cases hurl : urlPrefix <+: s
  · obtain ⟨rest, rfl⟩ := hurl
    by_cases hform : ∃ d, DaemonForm (urlPrefix ++ rest) d
    · obtain ⟨d, hd⟩ := hform
      have hread := (h d).mpr (Or.inl hd)
      rw [parseRemote_url] at hread
      generalize hs : urlPrefix ++ rest = s at hd
      cases hd with
      | url hhost hport hpath =>
          rw [List.append_cancel_left hs] at hread
          exact WellRead.url rfl hhost hport hpath
            (notMem_of_parseRsyncUrl hhost hport hpath hread)
      | module hhost path => exact absurd hs.symm hhost.not_url
    · -- the text before the first colon is a host, but a URL is never read as a shell path
      exfalso
      have hshell := ShellForm.path hostPart_scheme ('/' :: '/' :: rest)
      have hread := (h _).mpr (Or.inr ⟨hshell, hform⟩)
      rw [parseRemote_url] at hread
      exact absurd (parseRsyncUrl_isDaemon hread) Bool.false_ne_true
  · by_cases hslash : s.head? = some '/'
    · exact WellRead.absolute hslash
    · by_cases hdot : s.head? = some '.'
      · apply WellRead.dotted hdot
        rintro ⟨text, user, host, path, rfl, hhost⟩
        obtain ⟨x, hx⟩ := exists_documented hhost path
        have hread := (h x).mpr hx
        rw [parseRemote_local (Or.inr hdot)] at hread
        cases hread
      · cases hsplit : Str.splitOnce ':' s with
        | none => exact WellRead.plain (Str.splitOnce_eq_none.mp hsplit)
        | some r =>
            obtain ⟨before, path⟩ := r
            obtain ⟨rfl, hcolon⟩ := Str.splitOnce_eq_some.mp hsplit
            by_cases hne : before = []
            · subst hne
              exact WellRead.colon rfl
            · have hread := parseRemote_colon hcolon hne (isDriveLetter_eq_false hdrive) hurl
                hslash hdot
              rcases (h _).mp hread with hd | ⟨hshell, hnot⟩
              · exact absurd hd.isDaemon Bool.false_ne_true
              · exact wellRead_of_shellForm hcolon hurl hdot hshell rfl hnot

/-- Drive letters apart, exactly the operands of these kinds are read as documented. -/
theorem parseRemote_documented_iff
    (s : Str) (hdrive : ∀ c path, s = c :: ':' :: path → c.isAlpha = false) :
  ReadAsDocumented s ↔ WellRead s
  := by
  constructor
  · apply wellRead_of_readAsDocumented hdrive
  · apply WellRead.readAsDocumented hdrive

theorem parseRemote_documented_iff_shell :
  ReadAsDocumented "me@host:dir".toList ↔ WellRead "me@host:dir".toList
  := parseRemote_documented_iff "me@host:dir".toList (by
    intro c path h
    injection h with _ h
    injection h with h _
    exact absurd h (by decide))

example : parseRemote "rsync://me@[::1]:873/module/file".toList =
    some { user := some "me".toList, host := "[::1]".toList, port := some 873,
           path := "module/file".toList, isDaemon := true } := by decide

/-- The operand `host::module/file` names a path of a daemon, and is read as one behind a
remote shell. -/
theorem not_parseRemote_documented :
  ¬ ∀ s : Str, (∀ c path, s = c :: ':' :: path → c.isAlpha = false) → ReadAsDocumented s
  := by
  intro h
  have hread := h "host::module/file".toList (by
    intro c path h
    injection h with _ h
    injection h with h _
    exact absurd h (by decide))
  have hhost : HostPart "host".toList none "host".toList :=
    HostPart.host (IsHost.name (by decide) (by decide) (by decide) (by decide)) (by decide)
  have hdaemon : DaemonForm "host::module/file".toList _ :=
    DaemonForm.module hhost "module/file".toList
  have hparse := (hread _).mpr (Or.inl hdaemon)
  revert hparse
  decide
