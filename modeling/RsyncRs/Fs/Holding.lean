import RsyncRs.Fs.OnePlace
import RsyncRs.Fs.Temporary

/-!
# What a path leads to

As long as the places on the way of a path are what they were, the path leads to what it led to.
Calls that put something where nothing was leave that way alone.
-/

namespace Disk

variable {d d' d₁ : Disk} {l l' : Location} {p : FsPath}

/-- What a path leads to. -/
def contentOf (d : Disk) (p : FsPath) : Option FileKind :=
  (d.place p).bind d.kindAt

/-- What the path led to, it leads to. -/
def KeepsContent (p : FsPath) (d₀ d : Disk) : Prop :=
  ∀ kind, d₀.contentOf p = some kind → d.contentOf p = some kind

/-- The path leads to a file at the place `l`. -/
structure Leads (d : Disk) (p : FsPath) (l : Location) : Prop where
  place : d.place p = some l
  found : d.inode? l ≠ none

/-- The places on the way of a path, with its end. -/
def way (d : Disk) (p : FsPath) (l : Location) : List Location :=
  l :: d.trail true p

theorem Leads.met
    (h : Leads d p l) (hl' : l' ∈ d.way p l) :
  d.shape l' ≠ .leaf ∨ l' = l
  := by
  rcases List.mem_cons.mp hl' with rfl | hmem
  · exact Or.inr rfl
  · exact (FsPath.resolve_met h.place l' hmem).imp_right And.right

theorem Leads.kindAt_ne_none
    (h : Leads d p l) (hl' : l' ∈ d.way p l) :
  d.kindAt l' ≠ none
  := by
  rw [Ne, kindAt_eq_none_iff]
  rcases h.met hl' with hshape | rfl
  · exact inode?_ne_none_of_shape hshape
  · exact h.found

/-- The places on the way of the path `p`, which led to `l`, are what they were. -/
structure Holding (p : FsPath) (l : Location) (d₁ d : Disk) : Prop where
  cwd : d.cwd = d₁.cwd
  node : ∀ i, d₁.nodes l = some i → d.nodes l = some i
  kinds : ∀ l' ∈ d₁.way p l, d.kindAt l' = d₁.kindAt l'

namespace Holding

theorem refl
    (p : FsPath) (l : Location) (d : Disk) :
  Holding p l d d
  := ⟨rfl, fun _ hi => hi, fun _ _ => rfl⟩

theorem tick
    (h : Holding p l d₁ d) :
  Holding p l d₁ d.tick
  := ⟨h.cwd, h.node, h.kinds⟩

theorem place_eq
    (h : Holding p l d₁ d) (hlead : Leads d₁ p l) :
  d.place p = some l
  := by
  rw [← hlead.place, place, place, h.cwd]
  apply FsPath.resolve_congr
  intro l' hl'
  rw [shape_eq_kindAt, shape_eq_kindAt, h.kinds l' (List.mem_cons_of_mem l hl')]

theorem way_eq
    (h : Holding p l d₁ d) :
  d.way p l = d₁.way p l
  := by
  rw [way, way, trail, trail, h.cwd]
  apply congrArg (List.cons l)
  apply FsPath.trail_congr
  intro l' hl'
  rw [shape_eq_kindAt, shape_eq_kindAt, h.kinds l' (List.mem_cons_of_mem l hl')]

theorem keepsContent
    (h : Holding p l d₁ d) (hlead : Leads d₁ p l) :
  KeepsContent p d₁ d
  := by
  intro kind hkind
  rw [contentOf, hlead.place, Option.bind_some] at hkind
  rw [contentOf, h.place_eq hlead, Option.bind_some, h.kinds l List.mem_cons_self, hkind]

/-- Where nothing is, that is not on the way. -/
theorem not_mem_way
    (h : Holding p l d₁ d) (hlead : Leads d₁ p l) (hnone : d.inode? l' = none) :
  l' ∉ d₁.way p l
  := by
  intro hmem
  apply hlead.kindAt_ne_none hmem
  rw [← h.kinds l' hmem]
  exact kindAt_eq_none_iff.mpr hnone

theorem changedAt
    (h : Holding p l d₁ d) (hchanged : ChangedAt l' d d') (hl' : l' ∉ d₁.way p l) :
  Holding p l d₁ d'
  where
  cwd := hchanged.cwd.trans h.cwd
  node i hi := by
    have hne : l ≠ l' := fun heq => hl' (heq ▸ List.mem_cons_self)
    exact (hchanged.nodes l hne).trans (h.node i hi)
  kinds l'' hl'' := by
    have hne : l'' ≠ l' := fun heq => hl' (heq ▸ hl'')
    exact (hchanged.kindAt_eq hne).trans (h.kinds l'' hl'')

theorem grows
    (h : Holding p l d₁ d) (hlead : Leads d₁ p l) (hgrows : Grows d d') :
  Holding p l d₁ d'
  where
  cwd := hgrows.cwd.trans h.cwd
  node i hi := hgrows.nodes l i (h.node i hi)
  kinds l' hl' := by
    obtain ⟨kind, hkind⟩ := Option.ne_none_iff_exists'.mp (hlead.kindAt_ne_none hl')
    have hbefore := (h.kinds l' hl').trans hkind
    obtain ⟨inode, hinode, heq⟩ := Option.map_eq_some_iff.mp hbefore
    obtain ⟨inode', hinode', hkind'⟩ := hgrows.inode?_kind hinode
    rw [kindAt, hinode', Option.map_some, hkind', heq, hkind]

end Holding

end Disk
