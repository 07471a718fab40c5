import RsyncRs.Fs.Holding
import RsyncRs.Fs.Substitute
import RsyncRs.Program.Failure

/-!
# Calls that fail

What a failure leaves depends on the calls before it. A file that has been removed is not where its
path led any more, and neither is a file whose path went through the place that was cleared.
-/

namespace Disk

variable {closed : Bool} {α β : Type} {w : Endpoint Disk UInt8} {K : Disk → Prop}
  {d d' : Disk} {l : Location} {p : FsPath}

/-! ### Rules -/

section Rules

variable {q : Session FsReply (Except String α)} {ans : Option (Except String α × Disk)}
  {f : α → Session FsReply β}

/-- After a call that must succeed the procedure goes on, or it fails there. -/
theorem orFail_bind_iff
    (h : Proc.Calls answer closed q w ans) :
  Proc.FailsInto answer closed (Fs.orFail q >>= f) w K ↔
    (∀ msg d, ans = some (.error msg, d) → K d) ∧
      ∀ a d, ans = some (.ok a, d) → Proc.FailsInto answer closed (f a) { w with host := d } K
  := by
  rw [Fs.orFail, bind_assoc, h.bind_iff]
  constructor
  · intro hr
    constructor
    · intro msg d hans
      exact Proc.failsInto_throw_iff.mp (Proc.failsInto_bind_iff.mp (hr (.error msg) d hans)).1
    · intro a d hans
      exact hr (.ok a) d hans
  · rintro ⟨herror, hok⟩ r d hans
    cases r with
    | ok a => exact hok a d hans
    | error msg => exact Proc.failsInto_throw_iff.mpr (herror msg d hans)

theorem orFail_unit_bind_iff
    {q : Session FsReply (Except String Unit)} {ans : Option (Except String Unit × Disk)}
    {f : Unit → Session FsReply β} (h : Proc.Calls answer closed q w ans) :
  Proc.FailsInto answer closed (Fs.orFail q >>= f) w K ↔
    (∀ msg d, ans = some (.error msg, d) → K d) ∧
      ∀ d, ans = some (.ok (), d) → Proc.FailsInto answer closed (f ()) { w with host := d } K
  := by
  rw [orFail_bind_iff h]
  exact and_congr_right fun _ => ⟨fun hok d => hok () d, fun hok _ d => hok d⟩

/-- A call that must succeed. -/
theorem orFail_iff
    (h : Proc.Calls answer closed q w ans) :
  Proc.FailsInto answer closed (Fs.orFail q) w K ↔ ∀ msg d, ans = some (.error msg, d) → K d
  := by
  have hpure : ∀ a d, ans = some (.ok a, d) →
      Proc.FailsInto answer closed (pure a : Session FsReply α) { w with host := d } K :=
    fun a d _ => Proc.failsInto_pure a _ K
  rw [← bind_pure (Fs.orFail q), orFail_bind_iff h, and_iff_left hpure]

/-- The procedure goes on after a call, whether or not it succeeded. -/
theorem orIgnore_bind_iff
    {f : Unit → Session FsReply β} (h : Proc.Calls answer closed q w ans) :
  Proc.FailsInto answer closed (Fs.orIgnore q >>= f) w K ↔
    ∀ r d, ans = some (r, d) → Proc.FailsInto answer closed (f ()) { w with host := d } K
  := by
  rw [Fs.orIgnore, bind_assoc, h.bind_iff]
  rfl

end Rules

/-- What is known of a procedure wherever it fails. -/
theorem Moves.failsInto
    {q : Session FsReply α} {P : Disk → Prop} {Q : α → Disk → Prop}
    (h : Moves (Watch.nothing UInt8 FsReply Error (Endpoint Disk UInt8)) closed P q Q K)
    (hw : P w.host) :
  Proc.FailsInto answer closed q w K
  := by
  intro e w' hfails
  exact h w hw (fun i => i.elim) (.error e) w' hfails

/-! ### Answers -/

theorem modify_total
    (d : Disk) (e : Option Disk) :
  ∃ r d', d.modify e = some (r, d')
  := by
  unfold modify
  split
  · exact ⟨_, _, rfl⟩
  · exact ⟨_, _, rfl⟩

theorem modify_error
    {e : Option Disk} {msg : String} (h : d.modify e = some (.error msg, d')) :
  d' = d.tick
  := by
  rcases modify_cases h with ⟨_, -, hr, -⟩ | ⟨-, rfl⟩
  · cases hr
  · rfl

theorem modify_ok
    {e : Option Disk} (h : d.modify e = some (.ok (), d')) :
  d.fault d.calls = none ∧ ∃ d₁, e = some d₁ ∧ d' = d₁.tick
  := by
  unfold modify at h
  split at h
  · next d₁ hfault =>
    cases h
    exact ⟨hfault, d₁, rfl, rfl⟩
  · cases h

/-- A call that takes effect as a whole and must succeed. -/
theorem orFail_modify_iff
    {q : Session FsReply (Except String Unit)} {e : Option Disk}
    (h : Proc.Calls answer closed q w (w.host.modify e)) :
  Proc.FailsInto answer closed (Fs.orFail q) w K ↔
    (∃ d, w.host.modify e = some (.ok (), d)) ∨ K w.host.tick
  := by
  rw [orFail_iff h]
  constructor
  · intro hK
    obtain ⟨r, d, hanswer⟩ := modify_total w.host e
    cases r with
    | ok u => exact Or.inl ⟨d, hanswer⟩
    | error msg =>
        rw [← modify_error hanswer]
        exact Or.inr (hK msg d hanswer)
  · rintro hor msg d hanswer
    rcases hor with ⟨d', hok⟩ | hK
    · cases hok.symm.trans hanswer
    · rw [modify_error hanswer]
      exact hK

/-! ### What has been removed -/

/-- A call to remove the file fails. -/
def Untaken (d : Disk) (p : FsPath) : Prop :=
  d.removeFile p = none ∨ d.fault d.calls ≠ none

theorem Untaken.answer
    {r : Except String Unit} (h : Untaken d p) (hanswer : d.answer (.removeFile p) = some (r, d')) :
  d' = d.tick
  := by
  have hmodify : d.modify (d.removeFile p) = some (r, d') := hanswer
  cases r with
  | error msg => exact modify_error hmodify
  | ok u =>
      obtain ⟨hfault, d₁, hsome, -⟩ := modify_ok hmodify
      rcases h with hnone | hfault'
      · cases hnone.symm.trans hsome
      · exact absurd hfault hfault'

theorem removed_of_not_untaken
    (h : ¬ Untaken d p) :
  ∃ l inode, d.lplace p = some l ∧ d.inode? l = some inode ∧ inode.kind ≠ .dir ∧
    d.answer (.removeFile p) = some (.ok (), (d.unlink (· = l)).tick)
  := by
  rw [Untaken, not_or, not_not] at h
  obtain ⟨d₁, hsome⟩ := Option.ne_none_iff_exists'.mp h.1
  obtain ⟨l, inode, hl, hinode, hkind, rfl⟩ := removeFile_cases hsome
  refine ⟨l, inode, hl, hinode, hkind, ?_⟩
  simp only [Disk.answer, hsome, modify, h.2]

section Cleared

variable {inode : Inode} (hinode : d.inode? l = some inode) (hkind : inode.kind ≠ .dir)
include hinode hkind

/-- A file that has been removed is not found any more. -/
theorem contentOf_removed
    (hl : d.lplace p = some l) :
  (d.unlink (· = l)).contentOf p = none
  := by
  rw [contentOf, Option.bind_eq_none_iff]
  intro l' hl'
  have hother : ∀ l', l' ≠ l → (d.unlink (· = l)).shape l' = d.shape l' :=
    fun _ hne => (ChangedAt.unlink d l).shape_eq hne
  rw [FsPath.resolve_leaf (shape_cleared hinode hkind) hother hl hl']
  exact kindAt_cleared hinode hkind

/-- What a path leads to when a place has been cleared: the same, unless the place was on its
way. -/
theorem contentOf_cleared_iff
    {kind : FileKind} :
  (d.unlink (· = l)).contentOf p = some kind ↔
    d.contentOf p = some kind ∧ ∀ l', d.place p = some l' → l ∉ d.way p l'
  := by
  have hchanged := ChangedAt.unlink d l
  have hleaf := shape_cleared hinode hkind
  constructor
  · intro h
    obtain ⟨l', hl', hkindAt⟩ := Option.bind_eq_some_iff.mp h
    have hne : l' ≠ l := by
      rintro rfl
      cases (kindAt_cleared hinode hkind).symm.trans hkindAt
    have hplace : d.place p = some l' :=
      FsPath.resolve_taken hleaf (fun _ hne => hchanged.shape_eq hne) hl' hne
    refine ⟨?_, fun l'' hl'' => ?_⟩
    · rw [contentOf, hplace, Option.bind_some, ← hchanged.kindAt_eq hne, hkindAt]
    · cases hplace.symm.trans hl''
      -- Nothing that is on the way now is where the place was cleared.
      have hnot : l ∉ (d.unlink (· = l)).trail true p := by
        intro hmem
        rcases FsPath.resolve_met hl' l hmem with hshape | ⟨-, heq⟩
        · exact hshape hleaf
        · exact hne heq.symm
      have htrail : d.trail true p = (d.unlink (· = l)).trail true p := by
        apply FsPath.trail_congr
        intro l'' hl''
        apply (hchanged.shape_eq _).symm
        rintro rfl
        exact hnot hl''
      rw [way, htrail, List.mem_cons, not_or]
      exact ⟨hne.symm, hnot⟩
  · rintro ⟨h, hway⟩
    obtain ⟨l', hl', hkindAt⟩ := Option.bind_eq_some_iff.mp h
    have hnot := hway l' hl'
    rw [way, List.mem_cons, not_or] at hnot
    rw [contentOf, hchanged.place_eq hnot.2, hl', Option.bind_some,
      hchanged.kindAt_eq (Ne.symm hnot.1), hkindAt]

end Cleared

end Disk
