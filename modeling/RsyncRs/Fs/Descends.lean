import Mathlib.Data.Fintype.EquivFin
import RsyncRs.Fs.Inside

/-!
# Paths that descend

A relative path first leads up some directories and then down some names, wherever it starts. When
it does not lead up it leads to a place inside of any directory, and so does its parent.
-/

namespace FsPath

variable {cwd place root : Location} {p q : FsPath} {name : Name}

/-- The path leads inside of the directory where it starts, whichever that is. -/
structure Descends (p : FsPath) : Prop where
  relative : isAbsolute p = false
  inside : ∀ place, place <+: walk place p

theorem Descends.of_noParent
    (hrel : isAbsolute p = false) (h : NoParent p) :
  Descends p
  := by
  refine ⟨hrel, fun place => ?_⟩
  rw [walk_of_noParent place h]
  apply List.prefix_append

theorem locate_of_relative
    (cwd : Location) (h : isAbsolute p = false) :
  locate cwd p = walk cwd p
  := by
  rw [locate, if_neg (Bool.eq_false_iff.mp h)]

theorem Descends.nil :
  Descends []
  := ⟨rfl, fun place => by rw [walk_nil]⟩

theorem Descends.dot :
  Descends [dot]
  := ⟨rfl, fun place => by rw [walk_dot]⟩

theorem Descends.locate
    (h : Descends p) (cwd : Location) :
  cwd <+: FsPath.locate cwd p
  := by
  rw [locate_of_relative cwd h.relative]
  apply h.inside

theorem Descends.join
    (h : Descends p) (cwd : Location) (base : FsPath) :
  FsPath.locate cwd base <+: FsPath.locate cwd (base.join p)
  := by
  rw [locate_join cwd base h.relative]
  apply h.inside

/-! ### Up and down -/

/-- Parts that follow each other lead up some directories and then down some names. -/
theorem exists_route
    (parts : List FsPath) :
  ∃ (up : ℕ) (down : List Name), ∀ place : Location,
    parts.foldl enter place = place.take (place.length - up) ++ down
  := by
  induction parts using List.reverseRecOn with
  | nil => exact ⟨0, [], fun place => by simp⟩
  | append_singleton parts part ih =>
      obtain ⟨up, down, ih⟩ := ih
      simp only [List.foldl_append, List.foldl_cons, List.foldl_nil, ih]
      by_cases hnil : part = [] ∨ part = [dot]
      · refine ⟨up, down, fun place => ?_⟩
        rw [enter, if_pos hnil]
      by_cases hparent : part = [dot, dot]
      · rcases List.eq_nil_or_concat' down with rfl | ⟨init, last, rfl⟩
        · refine ⟨up + 1, [], fun place => ?_⟩
          rw [enter, if_neg hnil, if_pos hparent, List.append_nil, List.append_nil,
            List.dropLast_eq_take, List.length_take, List.take_take]
          congr 1
          omega
        · refine ⟨up, init, fun place => ?_⟩
          rw [enter, if_neg hnil, if_pos hparent, ← List.append_assoc, List.dropLast_concat]
      · refine ⟨up, down ++ [part], fun place => ?_⟩
        rw [enter, if_neg hnil, if_neg hparent, List.append_assoc]

/-- When one more name leads inside, the way to it does not lead up. -/
theorem prefix_walk_of_concat
    (h : ∀ place, place <+: walk place p ++ [name]) (place : Location) :
  place <+: walk place p
  := by
  obtain ⟨up, down, hroute⟩ := exists_route (p.splitOn sep)
  have hwalk : ∀ place, walk place p = place.take (place.length - up) ++ down := hroute
  -- a name that is not on the way down tells whether all of the start is kept
  obtain ⟨other, hother⟩ := Infinite.exists_notMem_finset (down ++ [name]).toFinset
  rw [List.mem_toFinset] at hother
  have hup : up = 0 := by
    by_contra hup
    apply hother
    have hstart := h (List.replicate up other)
    rw [hwalk, List.length_replicate, Nat.sub_self, List.take_zero, List.nil_append] at hstart
    exact hstart.mem (List.mem_replicate.mpr ⟨hup, rfl⟩)
  rw [hwalk, hup, Nat.sub_zero, List.take_length]
  apply List.prefix_append

/-- The parent of a path that descends descends. -/
theorem Descends.parent
    (h : Descends p) (hname : fileName p = some name) :
  ∃ q, FsPath.parent p = some q ∧ Descends q
  := by
  obtain ⟨-, q, hq, -⟩ := locate_fileName [] hname
  have hlocate : ∀ place, walk place p = FsPath.locate place q ++ [name] := by
    intro place
    obtain ⟨-, q', hq', hplace⟩ := locate_fileName place hname
    rw [hq] at hq'
    cases hq'
    rw [← hplace, locate_of_relative place h.relative]
  have hrel : isAbsolute q = false := by
    by_contra habs
    -- an absolute parent would be the same for all places, also for longer ones
    have hconst : ∀ place, FsPath.locate place q = walk [] q := by
      intro place
      rw [FsPath.locate, if_pos (Bool.not_eq_false _ ▸ habs)]
    have hlong := (h.inside (List.replicate ((walk [] q).length + 2) [])).length_le
    rw [hlocate, hconst, List.length_replicate, List.length_append, List.length_singleton] at hlong
    omega
  refine ⟨q, hq, hrel, ?_⟩
  apply prefix_walk_of_concat
  intro place
  rw [← locate_of_relative place hrel, ← hlocate]
  apply h.inside

/-! ### Names -/

/-- A path that descends and a name in it. -/
theorem Descends.concat
    (h : Descends p) (hne : p ≠ []) (hname : IsName name) :
  Descends (p ++ sep :: name)
  := by
  refine ⟨?_, fun place => ?_⟩
  · rw [isAbsolute_append hne, h.relative]
  · rw [walk_sep, walk_part _ hname.noSep, enter_name _ hname]
    exact (h.inside place).trans (List.prefix_append _ _)

theorem IsName.descends
    (h : IsName name) :
  Descends name
  := by
  have hnames : ∀ n ∈ [name], IsName n := by simpa using h
  have habs := isAbsolute_ofNames hnames
  rw [ofNames, List.intercalate_singleton] at habs
  refine ⟨habs, fun place => ?_⟩
  rw [walk_part place h.noSep, enter_name place h]
  apply List.prefix_append

end FsPath
