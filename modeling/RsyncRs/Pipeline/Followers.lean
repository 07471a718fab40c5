import RsyncRs.Pipeline.Untouched

/-!
# Hard links at the end of a session

When all files have been received, each follower of a group of hard links is taken away, and a link
to its leader, or a copy, is put in its place. Where the leader is missing, or where neither call
succeeds, the follower is lost.
-/

namespace Receiver

open Disk

variable {closed : Bool} {args : ReceiverArgs} {d d' d₀ : Disk} {fi : FileInfo}
  {done : List FileInfo} {l : Location} {leader follower path : FsPath}

/-- The path of an entry at the destination. -/
def pathOf (args : ReceiverArgs) (fi : FileInfo) : FsPath :=
  args.destDir.join fi.path

/-- The path of the leader of an entry that has one. -/
def leaderPath (args : ReceiverArgs) (fi : FileInfo) : Option FsPath :=
  (leaderOf args fi).map (pathOf args)

/-! ### When a follower is spared -/

/-- What is put at the place `l` disturbs none of the other followers: none of them leads through
that place, those that name it have the same leader, and the leaders of those that have been dealt
with are elsewhere. -/
structure Undisturbed (args : ReceiverArgs) (done : List FileInfo) (leader : FsPath) (l : Location)
    (d : Disk) : Prop where
  through : ∀ fj ∈ args.flist.files, (leaderPath args fj).isSome →
    l ∉ d.trail false (pathOf args fj)
  named : ∀ fj ∈ args.flist.files, (leaderPath args fj).isSome →
    d.lplace (pathOf args fj) = some l → leaderPath args fj = some leader
  leaders : ∀ fk ∈ done, ∀ lk, leaderPath args fk = some lk →
    d.lplace lk ≠ some l ∧ d.place lk ≠ some l ∧ l ∉ d.trail false lk ∧ l ∉ d.trail true lk

/-- A follower may be dealt with: its directory brings no file under the name of another follower,
and then nothing can be done, or a link or a copy of the leader can be put in its place. -/
def Sparing (args : ReceiverArgs) (done : List FileInfo) (fi : FileInfo) (d : Disk) : Prop :=
  ∀ leader, leaderPath args fi = some leader →
    (∀ fj ∈ args.flist.files, (leaderPath args fj).isSome → d.fileOf (pathOf args fj) = none →
      (withParent d (pathOf args fi)).fileOf (pathOf args fj) = none) ∧
    (Idle (withParent d (pathOf args fi)) leader (pathOf args fi) ∨
      ∃ l, Replaceable (withParent d (pathOf args fi)) leader (pathOf args fi) l ∧
        Undisturbed args done leader l (withParent d (pathOf args fi)))

/-! ### One follower -/

/-- The loop takes the follower away and puts a link or a copy in its place. -/
theorem makeHardLink_eq
    (h : leaderPath args fi = some leader) :
  makeHardLink args () fi =
    (createParent (pathOf args fi) >>= fun _ => substitute leader (pathOf args fi))
  := by
  obtain ⟨first, hfirst, rfl⟩ := Option.map_eq_some_iff.mp h
  unfold makeHardLink
  rw [hfirst]
  rfl

/-- An entry without a leader is passed over. -/
theorem makeHardLink_eq_pure
    (h : leaderPath args fi = none) :
  makeHardLink args () fi = pure ()
  := by
  unfold makeHardLink
  rw [Option.map_eq_none_iff.mp h]

theorem moves_makeHardLink
    {m : Watch UInt8 FsReply Error (Endpoint Disk UInt8)} {E : Disk → Prop}
    (h : leaderPath args fi = some leader) (hspare : Sparing args done fi d) :
  Moves m closed (· = d) (makeHardLink args () fi)
    (fun _ d' => d' = (withParent d (pathOf args fi)).tick.tick.tick ∨
      ∃ l, Replaced (withParent d (pathOf args fi)) leader (pathOf args fi) l d' ∧
        Undisturbed args done leader l (withParent d (pathOf args fi))) E
  := by
  rw [makeHardLink_eq h]
  apply (moves_makeParent d _).bind
  intro _
  rcases (hspare leader h).2 with hidle | ⟨l, hreplace, hothers⟩
  · apply (moves_substitute_idle hidle).consequence (fun _ hd => hd) ?_ fun _ hd => hd
    exact fun _ _ hd => Or.inl hd
  · apply (moves_substitute hreplace).consequence (fun _ hd => hd) ?_ fun _ hd => hd
    exact fun _ _ hd => Or.inr ⟨l, hd, hothers⟩

/-! ### What is kept of the other followers -/

theorem follows_of_grows
    (h : Grows d d') (hfollows : Follows d leader follower) :
  Follows d' leader follower
  := by
  rcases hfollows with ⟨l₁, l₂, i, h₁, h₂, hi₁, hi₂⟩ | ⟨l₁, l₂, data, h₁, h₂, hk₁, hk₂⟩
  · exact Or.inl ⟨l₁, l₂, i, h.lplace_eq h₁, h.lplace_eq h₂, h.nodes l₁ i hi₁, h.nodes l₂ i hi₂⟩
  · have hinode : d.inode? l₁ ≠ none := by
      rw [Ne, ← kindAt_eq_none_iff, hk₁]
      rintro ⟨⟩
    exact Or.inr ⟨l₁, l₂, data, h.place_eq h₁ hinode, h.lplace_eq h₂, h.kindAt hk₁,
      h.kindAt hk₂⟩

theorem follows_of_changedAt
    (h : ChangedAt l d d') (hfollower : d.lplace follower ≠ some l)
    (hthrough : l ∉ d.trail false follower)
    (hleader : d.lplace leader ≠ some l ∧ d.place leader ≠ some l ∧ l ∉ d.trail false leader ∧
      l ∉ d.trail true leader)
    (hfollows : Follows d leader follower) :
  Follows d' leader follower
  := by
  obtain ⟨hplace, hfinal, hpast, hpast'⟩ := hleader
  rcases hfollows with ⟨l₁, l₂, i, h₁, h₂, hi₁, hi₂⟩ | ⟨l₁, l₂, data, h₁, h₂, hk₁, hk₂⟩
  · have hne₁ : l₁ ≠ l := fun heq => hplace (heq ▸ h₁)
    have hne₂ : l₂ ≠ l := fun heq => hfollower (heq ▸ h₂)
    exact Or.inl ⟨l₁, l₂, i, (h.lplace_eq hpast).trans h₁, (h.lplace_eq hthrough).trans h₂,
      (h.nodes l₁ hne₁).trans hi₁, (h.nodes l₂ hne₂).trans hi₂⟩
  · have hne₁ : l₁ ≠ l := fun heq => hfinal (heq ▸ h₁)
    have hne₂ : l₂ ≠ l := fun heq => hfollower (heq ▸ h₂)
    exact Or.inr ⟨l₁, l₂, data, (h.place_eq hpast').trans h₁, (h.lplace_eq hthrough).trans h₂,
      (h.kindAt_eq hne₁).trans hk₁, (h.kindAt_eq hne₂).trans hk₂⟩

theorem fileOf_of_changedAt
    (h : ChangedAt l d d') (hplace : d.lplace path ≠ some l) (hthrough : l ∉ d.trail false path) :
  d'.fileOf path = d.fileOf path
  := by
  rw [fileOf, fileOf, h.lplace_eq hthrough]
  cases hl : d.lplace path with
  | none => rfl
  | some l' =>
      rw [Option.bind_some, Option.bind_some, h.kindAt_eq fun heq => hplace (heq ▸ hl)]

/-- Two paths that name one place follow alike. -/
theorem follows_congr
    (h : d.lplace path = d.lplace follower) (hfollows : Follows d leader follower) :
  Follows d leader path
  := by
  rcases hfollows with ⟨l₁, l₂, i, h₁, h₂, hi⟩ | ⟨l₁, l₂, data, h₁, h₂, hk⟩
  · exact Or.inl ⟨l₁, l₂, i, h₁, h.trans h₂, hi⟩
  · exact Or.inr ⟨l₁, l₂, data, h₁, h.trans h₂, hk⟩

/-- Each follower is a link to its leader or a copy of it, and a follower of that leader has been
dealt with, or it is what it was. -/
def Survive (args : ReceiverArgs) (d₀ : Disk) (done : List FileInfo) (d : Disk) : Prop :=
  ∀ fj ∈ args.flist.files, ∀ lj, leaderPath args fj = some lj →
    (Follows d lj (pathOf args fj) ∧ ∃ fk ∈ done, leaderPath args fk = some lj) ∨
      d.fileOf (pathOf args fj) = d₀.fileOf (pathOf args fj)

theorem survive_cons
    (h : Survive args d₀ done d) (fi : FileInfo) :
  Survive args d₀ (done ++ [fi]) d
  := by
  intro fj hj lj hlj
  rcases h fj hj lj hlj with ⟨hfollows, fk, hk, hlk⟩ | hsame
  · exact Or.inl ⟨hfollows, fk, List.mem_append_left _ hk, hlk⟩
  · exact Or.inr hsame

/-- When the directory of a follower has been made, the followers are what they were. -/
theorem survive_withParent
    (h : Survive args d₀ done d) (hlead : leaderPath args fi = some leader)
    (hspare : Sparing args done fi d) :
  Survive args d₀ done (withParent d (pathOf args fi))
  := by
  have hgrows := grows_withParent d (pathOf args fi)
  intro fj hj lj hlj
  rcases h fj hj lj hlj with ⟨hfollows, hk⟩ | hsame
  · exact Or.inl ⟨follows_of_grows hgrows hfollows, hk⟩
  · right
    rw [← hsame]
    cases hfile : d.fileOf (pathOf args fj) with
    | none => exact (hspare leader hlead).1 fj hj (Option.isSome_of_eq_some hlj) hfile
    | some kind => exact hgrows.fileOf hfile

/-- When a follower has been replaced, the others are what they were. -/
theorem survive_replaced
    (h : Survive args d₀ done d) (hlead : leaderPath args fi = some leader)
    (hreplaced : Replaced d leader (pathOf args fi) l d')
    (hothers : Undisturbed args done leader l d) :
  Survive args d₀ (done ++ [fi]) d'
  := by
  intro fj hj lj hlj
  have hsome : (leaderPath args fj).isSome := Option.isSome_of_eq_some hlj
  have hthrough := hothers.through fj hj hsome
  by_cases hnamed : d.lplace (pathOf args fj) = some l
  · left
    cases hlj.symm.trans (hothers.named fj hj hsome hnamed)
    have hplace : d'.lplace (pathOf args fj) = d'.lplace (pathOf args fi) := by
      rw [hreplaced.changed.lplace_eq hthrough, hnamed, hreplaced.place]
    exact ⟨follows_congr hplace hreplaced.follows, fi,
      List.mem_append_right _ (List.mem_singleton_self fi), hlead⟩
  · rcases h fj hj lj hlj with ⟨hfollows, fk, hk, hlk⟩ | hsame
    · left
      refine ⟨?_, fk, List.mem_append_left _ hk, hlk⟩
      exact follows_of_changedAt hreplaced.changed hnamed hthrough (hothers.leaders fk hk lj hlk)
        hfollows
    · right
      rw [fileOf_of_changedAt hreplaced.changed hnamed hthrough, hsame]

/-! ### The loop -/

/-- Every follower is spared when the loop comes to it. -/
def SparesAll (args : ReceiverArgs) (closed : Bool) (w : Endpoint Disk UInt8) : Prop :=
  Proc.EachMeets (Prog.Answers (Endpoint.answer Disk.answer closed)) (makeHardLink args)
    (fun done fi w => Sparing args done fi w.host) [] () args.flist.files w

theorem survive_makeHardLink
    {w w' : Endpoint Disk UInt8} {r : Except Error Unit} (h : Survive args d₀ done w.host)
    (hspare : Sparing args done fi w.host)
    (hr : Prog.Ends (Prog.Answers (Endpoint.answer Disk.answer closed))
      (makeHardLink args () fi).run
      w r w') :
  Proc.Post (fun _ w' => Survive args d₀ (done ++ [fi]) w'.host) (fun _ _ => False) r w'
  := by
  have hstep : Moves (Watch.nothing _ _ _ _) closed (· = w.host) (makeHardLink args () fi)
      (fun _ d => Survive args d₀ (done ++ [fi]) d) (fun _ => False) := ?_
  · exact hstep.ends rfl hr
  cases hlead : leaderPath args fi with
  | none =>
      rw [makeHardLink_eq_pure hlead]
      apply Moves.pure
      rintro d rfl
      exact survive_cons h fi
  | some leader =>
      apply (moves_makeHardLink hlead hspare).consequence (fun _ hd => hd) ?_ fun _ hd => hd
      have hparent := survive_withParent h hlead hspare
      rintro _ d' (rfl | ⟨l, hreplaced, hothers⟩)
      · exact survive_cons hparent fi
      · exact survive_replaced hparent hlead hreplaced hothers

/-- When every follower is spared, each of them is in the end a link to its leader, a copy of it, or
what it was. -/
theorem followers_survive
    (args : ReceiverArgs) (closed : Bool) (w w' : Endpoint Disk UInt8) (r : Except Error Unit)
    (hspare : SparesAll args closed w)
    (hr : Prog.Ends (Prog.Answers (Endpoint.answer Disk.answer closed))
      (Proc.forEach (makeHardLink args) () args.flist.files).run w r w') :
  r = .ok () ∧ ∀ fi ∈ args.flist.files, ∀ leader, leaderPath args fi = some leader →
    Follows w'.host leader (pathOf args fi) ∨
      w'.host.fileOf (pathOf args fi) = w.host.fileOf (pathOf args fi)
  := by
  have hkept : Proc.Post (fun _ w' => Survive args w.host ([] ++ args.flist.files) w'.host)
      (fun _ _ => False) r w' := by
    apply
      Proc.forEach_keeps (J := fun done _ w' => Survive args w.host done w'.host) ?_ hspare ?_ hr
    · intro done _ fi w₁ hd hcond r₁ w₂ hr₁
      exact survive_makeHardLink hd hcond hr₁
    · exact fun _ _ _ _ => Or.inr rfl
  cases r with
  | error e => exact hkept.elim
  | ok u =>
      refine ⟨rfl, fun fi hfi leader hleader => ?_⟩
      exact (hkept fi hfi leader hleader).imp And.left id

/-- The first name of a file. -/
def nameA : FileInfo where
  name := [97]
  mode := 0o100644
  size := 5
  hardLinkFirstNdx := -1

/-- Another name of the file. -/
def nameB : FileInfo where
  name := [98]
  mode := 0o100644
  size := 5
  hardLinkFirstNdx := 0

/-- A receiver that skips files of more than three bytes. -/
def receivePair : ReceiverArgs where
  flist := { files := [nameA, nameB] }
  destDir := [sep, 100]
  csumType := .md4
  protocol := 31
  checksumSeed := 0
  maxSize := some 3

/-- A directory that holds a file under the second name. -/
def secondName : Endpoint Disk UInt8 where
  host := (Disk.blank.create [[100]] { kind := .dir }).create [[100], [98]] { kind := .file [1] }
  input := []
  buffer := []
  sent := []

/-- A directory that holds files under both names. -/
def bothNames : Endpoint Disk UInt8 where
  host := secondName.host.create [[100], [97]] { kind := .file [2] }
  input := []
  buffer := []
  sent := []

theorem sparesAll_bothNames :
  SparesAll receivePair true bothNames
  := by
  refine
    ⟨fun leader hleader => ?_, fun _ w' hw' => ⟨fun leader hleader => ?_, fun _ _ _ => trivial⟩⟩
  · cases hleader
  rw [makeHardLink_eq_pure rfl] at hw'
  obtain ⟨-, rfl⟩ := Prog.Ends.of_ret hw'
  cases hleader
  refine ⟨by decide +kernel, Or.inr ⟨[[100], [98]], ?_, ?_⟩⟩
  · constructor
    · exact ⟨by decide +kernel, Or.inr (by decide +kernel)⟩
    · refine Or.inl ⟨⟨by decide +kernel, [[100], [97]], .file [2], ?_⟩, ?_⟩
      · decide +kernel
      · decide +kernel
  · constructor
    · decide +kernel
    · decide +kernel
    · intro fk hk lk hlk
      cases List.mem_singleton.mp hk
      cases hlk

theorem followers_survive_bothNames :
  ∃ r w', Prog.Ends (Prog.Answers (Endpoint.answer Disk.answer true))
    (Proc.forEach (makeHardLink receivePair) () receivePair.flist.files).run bothNames r w' ∧
    r = .ok () ∧ ∀ fi ∈ receivePair.flist.files, ∀ leader, leaderPath receivePair fi = some leader →
      Follows w'.host leader (pathOf receivePair fi) ∨
        w'.host.fileOf (pathOf receivePair fi) = bothNames.host.fileOf (pathOf receivePair fi)
  := by
  have hsome :
      (Prog.eval (Endpoint.answer Disk.answer true) 5
        (Proc.forEach (makeHardLink receivePair) () receivePair.flist.files).run
        bothNames).isSome := by
    decide +kernel
  obtain ⟨⟨r, w'⟩, heval⟩ := Option.isSome_iff_exists.mp hsome
  have hends := Prog.ends_of_eval heval
  exact ⟨r, w', hends, followers_survive receivePair true bothNames w' r sparesAll_bothNames hends⟩

/-- The follower of a leader that was skipped is lost. -/
theorem follower_lost :
  ¬ ∀ (args : ReceiverArgs) (closed : Bool) (w w' : Endpoint Disk UInt8) (r : Except Error Unit),
    Prog.Ends (Prog.Answers (Endpoint.answer Disk.answer closed))
      (Proc.forEach (makeHardLink args) () args.flist.files).run w r w' →
    ∀ fi ∈ args.flist.files, ∀ leader, leaderPath args fi = some leader →
      Follows w'.host leader (pathOf args fi) ∨
        w'.host.fileOf (pathOf args fi) = w.host.fileOf (pathOf args fi)
  := by
  intro h
  have hgone : (Prog.eval (Endpoint.answer Disk.answer true) 5
      (Proc.forEach (makeHardLink receivePair) () receivePair.flist.files).run secondName).map
        (fun x => (x.2.host.lplace [sep, 100, sep, 98], x.2.host.nodes [[100], [98]])) =
      some (some [[100], [98]], none) := by
    decide +kernel
  obtain ⟨⟨r, w'⟩, heval, hgone⟩ := Option.map_eq_some_iff.mp hgone
  obtain ⟨hplace, hnodes⟩ := Prod.mk.inj hgone
  have hpath : pathOf receivePair nameB = [sep, 100, sep, 98] := by decide +kernel
  have hfollower := h receivePair true secondName w' r (Prog.ends_of_eval heval) nameB
    (by decide +kernel) (pathOf receivePair nameA) rfl
  rw [hpath] at hfollower
  have hnone : w'.host.kindAt [[100], [98]] = none := by
    rw [kindAt_eq_none_iff, inode?_eq_none_iff]
    exact ⟨nofun, hnodes⟩
  rcases hfollower with (⟨l, l', i, -, hl', -, hi⟩ | ⟨l, l', data, -, hl', -, hkind⟩) | hsame
  · cases hplace.symm.trans hl'
    cases hnodes.symm.trans hi
  · cases hplace.symm.trans hl'
    cases hnone.symm.trans hkind
  · rw [fileOf, hplace, Option.bind_some, hnone] at hsame
    have hbefore : secondName.host.fileOf [sep, 100, sep, 98] = some (.file [1]) := by
      decide +kernel
    cases hsame.trans hbefore

end Receiver
