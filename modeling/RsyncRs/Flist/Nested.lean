import RsyncRs.Flist.Compare
import RsyncRs.Flist.Entry

/-!
# Sorted file lists are nested

What comes from a walker is the name of the folder of a file, in a path, and the name of the
file in it, in an item. So the order of a file list is that of its folders: a directory comes
before what is below it, what is below it stands together, and the files of a folder come before
its subdirectories.
-/

/-! ### Lists in lexicographic order -/

section Lexicographic

variable {α : Type*} [LinearOrder α]

/-- What lies between two lists with a common start has that start. -/
theorem prefix_of_between
    {p l m n : List α} (hl : p <+: l) (hn : p <+: n) (hlm : l ≤ m) (hmn : m ≤ n) :
  p <+: m
  := by
  induction p generalizing l m n with
  | nil => exact List.nil_prefix
  | cons c p ih =>
      obtain ⟨l, rfl⟩ := hl
      obtain ⟨n, rfl⟩ := hn
      cases m with
      | nil => exact absurd (List.nil_lt_cons _ _) (not_lt.mpr hlm)
      | cons d m =>
          rw [List.cons_append, cons_le_cons] at hlm hmn
          rcases hlm with hcd | ⟨rfl, hlm⟩
          · rcases hmn with hdc | ⟨rfl, -⟩
            · exact absurd hcd (lt_asymm hdc)
            · exact absurd hcd (lt_irrefl _)
          · rcases hmn with hlt | ⟨-, hmn⟩
            · exact absurd hlt (lt_irrefl _)
            · rw [List.cons_prefix_cons]
              exact ⟨rfl, ih (List.prefix_append p l) (List.prefix_append p n) hlm hmn⟩

/-- Lists with a common start are in the order of their rests. -/
theorem append_lt_append
    (p : List α) {l m : List α} :
  p ++ l < p ++ m ↔ l < m
  := by
  induction p with
  | nil => rfl
  | cons c p ih =>
      rw [List.cons_append, List.cons_append, List.cons_lt_cons_iff, ih]
      simp

end Lexicographic

/-- In a list in order, what may not come later comes first. -/
theorem index_lt_of_pairwise
    {α : Type*} {r : α → α → Prop} {l : List α} (hl : l.Pairwise r) {x y : α} (hne : x ≠ y)
    (hr : ¬r y x) {i j : ℕ} (hi : l[i]? = some x) (hj : l[j]? = some y) :
  i < j
  := by
  obtain ⟨hil, rfl⟩ := List.getElem?_eq_some_iff.mp hi
  obtain ⟨hjl, rfl⟩ := List.getElem?_eq_some_iff.mp hj
  rcases Nat.lt_trichotomy i j with hij | hij | hij
  · exact hij
  · subst hij
    cases hne rfl
  · cases hr (List.pairwise_iff_getElem.mp hl j i hjl hil hij)

/-! ### Folders -/

namespace FileInfo

/-- What the paths of the files in the same folder start with. -/
def parent (fi : FileInfo) : Name :=
  match fi.dirname with
  | some d => if d = [] then [] else d ++ [sep]
  | none => []

/-- What the paths of the files in a directory start with. The directory `.` of a folder is that
folder. -/
def folder (fi : FileInfo) : Name :=
  if fi.name = [dot] then fi.parent else fi.parent ++ fi.name ++ [sep]

/-- The folder of a file: a directory is in its own one. -/
def home (fi : FileInfo) : Name :=
  if fi.isDir then fi.folder else fi.parent

/-- The name in the folder: a directory has none in its own one. -/
def label (fi : FileInfo) : Name :=
  if fi.isDir then [] else fi.name

/-- The path is the name in the folder. -/
theorem path_eq
    (fi : FileInfo) :
  fi.path = fi.parent ++ fi.name
  := by
  unfold path parent
  cases fi.dirname with
  | none => rfl
  | some d =>
      by_cases hd : d = []
      · simp [hd]
      · have hslash : bytesOf "/" = [sep] := by decide
        simp [hd, hslash]

end FileInfo

/-! ### What comes from a walker -/

/-- What comes from a walker in a path. -/
def pathCodes (bs : List UInt8) : List ℕ :=
  bs.map fun b => Walker.code .path (some b)

/-- What comes from a walker in an item, up to its end. -/
def itemCodes (bs : List UInt8) : List ℕ :=
  bs.map (fun b => Walker.code .item (some b)) ++ [Walker.code .item none]

namespace Walker

/-- A walker gives what is left of a part first. -/
theorem codes_part
    {w : Walker} (hdone : w.done = false) :
  w.codes = w.cur.map (fun b => code w.t (some b)) ++ codes { w with cur := [] }
  := by
  obtain ⟨cur, t, s, isDir, base, done⟩ := w
  dsimp only at hdone ⊢
  subst hdone
  induction cur with
  | nil => rfl
  | cons b cur ih =>
      have hrefill : refill ⟨b :: cur, t, s, isDir, base, false⟩ =
          (some b, ⟨cur, t, s, isDir, base, false⟩) := by
        rw [refill]
        rfl
      rw [codes_of_some hrefill, ih]
      rfl

/-- At the end of a part a walker goes on with the next one. -/
theorem codes_advance
    {w : Walker} (hdone : w.done = false) (hcur : w.cur = []) :
  w.codes = w.advance.codes
  := by
  have hrefill : w.refill = w.advance.refill := by
    rw [refill, dif_neg (by simp [hdone])]
    split
    · next b rest hc => cases hcur.symm.trans hc
    · rfl
  rcases h : w.advance.refill with ⟨r, v⟩
  cases r with
  | none => rw [codes_of_none h, codes_of_none (hrefill.trans h)]
  | some b => rw [codes_of_some h, codes_of_some (hrefill.trans h)]

/-- A walker that is done gives nothing more. -/
theorem codes_done
    {w : Walker} (hdone : w.done = true) :
  w.codes = [code w.t none]
  := by
  apply codes_of_none
  rw [refill, dif_pos hdone]

/-- A walker behind the name of a directory. -/
theorem codes_trailing
    {w : Walker} (hdone : w.done = false) (hs : w.s = .trailing) :
  w.codes = w.cur.map (fun b => code w.t (some b)) ++ itemCodes []
  := by
  rw [codes_part hdone, codes_advance (by simpa using hdone) rfl, codes_done]
  · simp [advance, hs, itemCodes]
  · simp [advance, hs]

/-- A walker at the base name of a file. -/
theorem codes_base
    {w : Walker} (hdone : w.done = false) (hs : w.s = .base) :
  w.codes = if w.t = .path then pathCodes (w.cur ++ [sep]) ++ itemCodes []
    else itemCodes w.cur
  := by
  rw [codes_part hdone, codes_advance (by simpa using hdone) rfl]
  by_cases ht : w.t = .path
  · rw [if_pos ht, codes_trailing]
    · simp [advance, hs, ht, pathCodes]
    · simp [advance, hs, ht, hdone]
    · simp [advance, hs, ht]
  · have hitem : w.t = .item := by
      cases h : w.t with
      | item => rfl
      | path => cases ht h
    rw [if_neg ht, codes_done]
    · simp [advance, hs, hitem, itemCodes]
    · simp [advance, hs, hitem]

end Walker

/-- What comes from a walker at the base name: the rest of the folder, and the name in it. -/
theorem Walker.codes_atBase
    (f : FileInfo) :
  (new.atBase f).codes =
    pathCodes (if f.isDir ∧ f.name ≠ [dot] then f.name ++ [sep] else []) ++ itemCodes f.label
  := by
  unfold new.atBase FileInfo.label
  cases hdir : f.isDir with
  | true =>
      by_cases hdot : f.name = [dot]
      · rw [if_pos ⟨rfl, hdot⟩, codes_trailing rfl rfl]
        simp [hdot, pathCodes]
      · rw [if_neg (fun h => hdot h.2), codes_base rfl rfl]
        simp [hdot]
  | false =>
      rw [if_neg (by simp), codes_base rfl rfl]
      simp [pathCodes]

/-- What comes from the walker of a file: its folder, and its name in it. -/
theorem Walker.codes_new
    (f : FileInfo) :
  (Walker.new f).codes = pathCodes f.home ++ itemCodes f.label
  := by
  have hhome : f.home = f.parent ++
      if f.isDir ∧ f.name ≠ [dot] then f.name ++ [sep] else [] := by
    unfold FileInfo.home FileInfo.folder
    cases f.isDir with
    | true =>
        by_cases hdot : f.name = [dot] <;> simp [hdot]
    | false => simp
  have happend : ∀ u v : List UInt8, pathCodes (u ++ v) = pathCodes u ++ pathCodes v :=
    fun u v => List.map_append
  rw [hhome, happend, List.append_assoc, ← codes_atBase]
  unfold FileInfo.parent new
  cases f.dirname with
  | none => rfl
  | some d =>
      by_cases hd : d = []
      · simp [hd, pathCodes]
      · -- the directory and a slash come first, and then the walker is at the base name
        simp only [ne_eq, hd, not_false_eq_true, if_true, if_false]
        rw [codes_part rfl, codes_advance rfl rfl, codes_part rfl, codes_advance rfl rfl, happend,
          List.append_assoc]
        congr 2

/-! ### The comparison -/

/-- The comparison of two walkers the other way round. -/
theorem fileCompareFrom_swap
    (w₁ w₂ : Walker) :
  fileCompareFrom w₂ w₁ = (fileCompareFrom w₁ w₂).swap
  := by
  induction hn : w₁.remaining using Nat.strong_induction_on generalizing w₁ w₂ with
  | _ n ih =>
      subst hn
      rcases h₁ : w₁.refill with ⟨r₁, v₁⟩
      rcases h₂ : w₂.refill with ⟨r₂, v₂⟩
      by_cases ht : v₁.t = v₂.t
      · by_cases hend : r₁ = none ∨ r₂ = none
        · rw [fileCompareFrom_end h₁ h₂ ht hend, fileCompareFrom_end h₂ h₁ ht.symm hend.symm]
          cases r₁ <;> cases r₂ <;> rfl
        · rw [not_or, ← ne_eq, ← ne_eq, Option.ne_none_iff_exists', Option.ne_none_iff_exists']
            at hend
          obtain ⟨⟨b₁, rfl⟩, ⟨b₂, rfl⟩⟩ := hend
          rw [fileCompareFrom_some h₁ h₂ ht, fileCompareFrom_some h₂ h₁ ht.symm,
            ih v₁.remaining (Walker.remaining_refill_lt h₁) v₁ v₂ rfl]
          have hswap : compare b₂ b₁ = (compare b₁ b₂).swap := Std.OrientedCmp.eq_swap
          rw [hswap]
          cases compare b₁ b₂ <;> rfl
      · rw [fileCompareFrom_part h₁ h₂ ht, fileCompareFrom_part h₂ h₁ (Ne.symm ht)]
        cases h₁' : v₁.t <;> cases h₂' : v₂.t <;> simp_all

/-- The files in the order of what comes from their walkers. -/
def key (f : FileInfo) : List ℕ :=
  pathCodes f.home ++ itemCodes f.label

theorem fileLe_iff_key
    (a b : FileInfo) :
  fileLe a b = true ↔ key a ≤ key b
  := by
  rw [fileLe_iff, Walker.codes_new, Walker.codes_new, key, key]

theorem fileCompare_swap
    (a b : FileInfo) :
  fileCompare b a = (fileCompare a b).swap
  := fileCompareFrom_swap _ _

/-- Two files compare as what comes from their walkers. -/
theorem fileCompare_compares
    (a b : FileInfo) :
  (fileCompare a b).Compares (key a) (key b)
  := by
  have hle := fileLe_iff_key a b
  have hge := fileLe_iff_key b a
  rw [fileLe, decide_eq_true_iff] at hle hge
  rw [fileCompare_swap a b] at hge
  cases hc : fileCompare a b with
  | lt => exact not_le.mp (mt hge.mpr (by simp [hc]))
  | eq => exact le_antisymm (hle.mp (by simp [hc])) (hge.mp (by simp [hc]))
  | gt => exact not_le.mp (mt hle.mpr (by simp [hc]))

/-! ### Keys -/

theorem pathCodes_prefix_iff
    {p u v : List UInt8} :
  pathCodes p <+: pathCodes u ++ itemCodes v ↔ p <+: u
  := by
  induction p generalizing u with
  | nil => simp [pathCodes]
  | cons b p ih =>
      cases u with
      | nil =>
          -- what comes in a path is not what comes in an item
          cases v with
          | nil => simp [pathCodes, itemCodes, Walker.code]
          | cons c v =>
              have hc := c.toNat_lt
              simp only [pathCodes, itemCodes, List.map_cons, List.map_nil, List.nil_append,
                List.cons_append, List.cons_prefix_cons, List.prefix_nil, reduceCtorEq, iff_false,
                not_and]
              intro h
              simp only [Walker.code, if_true, reduceCtorEq, if_false, Option.elim] at h
              omega
      | cons c u =>
          have hcode : Walker.code .path (some b) = Walker.code .path (some c) ↔ b = c := by
            simp [Walker.code, UInt8.toNat_inj]
          have hcons : ∀ (a : UInt8) (l : List UInt8), pathCodes (a :: l) =
              Walker.code .path (some a) :: pathCodes l := fun _ _ => rfl
          rw [hcons, hcons, List.cons_append, List.cons_prefix_cons, List.cons_prefix_cons, ih,
            hcode]

/-- Files whose keys are the same are in the same folder, and have the same name there. -/
theorem key_inj
    {a b : FileInfo} (h : key a = key b) :
  a.home = b.home ∧ a.label = b.label
  := by
  have hab : a.home <+: b.home := by
    rw [← pathCodes_prefix_iff (v := b.label)]
    change _ <+: key b
    rw [← h]
    exact List.prefix_append _ _
  have hba : b.home <+: a.home := by
    rw [← pathCodes_prefix_iff (v := a.label)]
    change _ <+: key a
    rw [h]
    exact List.prefix_append _ _
  have hhome := hab.eq_of_length_le hba.length_le
  refine ⟨hhome, ?_⟩
  rw [key, key, hhome, List.append_cancel_left_eq, itemCodes, itemCodes,
    List.append_cancel_right_eq] at h
  apply List.map_injective_iff.mpr _ h
  intro b c hbc
  simpa [Walker.code, UInt8.toNat_inj] using hbc

/-- The files of a folder come before what is in its subfolders. -/
theorem key_lt_of_subfolder
    {a b : FileInfo} (hpre : a.home <+: b.home) (hne : b.home ≠ a.home) :
  key a < key b
  := by
  obtain ⟨w, hw⟩ := hpre
  have happend : pathCodes (a.home ++ w) = pathCodes a.home ++ pathCodes w := List.map_append
  rw [key, key, ← hw, happend, List.append_assoc, append_lt_append]
  cases w with
  | nil => cases hne (by rw [← hw, List.append_nil])
  | cons c w =>
      cases hlabel : a.label with
      | nil => exact List.cons_lt_cons_iff.mpr (.inl (by simp [Walker.code]))
      | cons d l =>
          have hd := d.toNat_lt
          apply List.cons_lt_cons_iff.mpr (.inl _)
          simp only [Walker.code, if_true, reduceCtorEq, if_false, Option.elim]
          omega

/-- A folder comes before the files in it. -/
theorem key_lt_of_label
    {a b : FileInfo} (hhome : a.home = b.home) (ha : a.label = []) (hb : b.label ≠ []) :
  key a < key b
  := by
  rw [key, key, hhome, ha, append_lt_append]
  cases hlabel : b.label with
  | nil => cases hb hlabel
  | cons d l => exact List.cons_lt_cons_iff.mpr (.inl (by simp [Walker.code]))

/-! ### What is below a directory -/

namespace FileInfo

/-- The file is below the directory: it is not the directory itself, and its path starts with what
the paths of the files in the directory start with. -/
def IsBelow (x d : FileInfo) : Prop :=
  d.folder <+: x.path ∧ ¬(x.isDir = true ∧ x.folder = d.folder)

/-- The file is the directory, or below it. -/
def InSubtree (x d : FileInfo) : Prop :=
  x.IsBelow d ∨ x.isDir = true ∧ x.folder = d.folder

/-- A folder has a slash at its end, except for the one that everything is in. -/
theorem getLast?_folder
    (d : FileInfo) :
  d.folder = [] ∨ d.folder.getLast? = some sep
  := by
  unfold folder parent
  by_cases hdot : d.name = [dot]
  · rw [if_pos hdot]
    cases d.dirname with
    | none => exact .inl rfl
    | some dirname =>
        by_cases hd : dirname = []
        · exact .inl (if_pos hd)
        · simp [hd]
  · rw [if_neg hdot]
    exact .inr List.getLast?_concat

/-- A folder that a path starts with is one that the folder of the file starts with. -/
theorem folder_prefix_iff
    {name : Name} (hname : sep ∉ name) (d : FileInfo) (u : Name) :
  d.folder <+: u ++ name ↔ d.folder <+: u
  := by
  refine ⟨?_, fun h => h.trans (List.prefix_append _ _)⟩
  intro h
  rcases List.prefix_or_prefix_of_prefix h (List.prefix_append u name) with hpre | ⟨w, hw⟩
  · exact hpre
  · rw [← hw, List.prefix_append_right_inj] at h
    cases hlast : w.getLast? with
    | none =>
        rw [List.getLast?_eq_none_iff.mp hlast, List.append_nil] at hw
        exact hw ▸ List.prefix_rfl
    | some b =>
        have hmem : b ∈ name := h.subset (List.mem_of_getLast? hlast)
        have hend : d.folder.getLast? = some b := by
          rw [← hw, List.getLast?_append, hlast]
          rfl
        rcases d.getLast?_folder with hnil | hsep
        · rw [hnil] at hend
          cases hend
        · rw [hsep] at hend
          cases hend
          cases hname hmem

/-- A file is in a directory or below when its folder is. -/
theorem inSubtree_iff
    {x : FileInfo} (hname : sep ∉ x.name) (d : FileInfo) :
  x.InSubtree d ↔ d.folder <+: x.home
  := by
  have hpath := folder_prefix_iff hname d x.parent
  unfold InSubtree IsBelow home
  rw [path_eq, hpath]
  cases hdir : x.isDir with
  | false => simp
  | true =>
      by_cases hdot : x.name = [dot]
      · have hfolder : x.folder = x.parent := if_pos hdot
        simp only [hfolder, true_and, if_true]
        constructor
        · rintro (h | h)
          · exact h.1
          · exact h ▸ List.prefix_rfl
        · intro h
          by_cases heq : x.parent = d.folder
          · exact .inr heq
          · exact .inl ⟨h, heq⟩
      · have hfolder : x.folder = x.parent ++ x.name ++ [sep] := if_neg hdot
        simp only [hfolder, true_and, if_true]
        rw [← hpath, List.prefix_concat_iff]
        constructor
        · rintro (h | h)
          · exact .inr h.1
          · exact .inl h.symm
        · rintro (h | h)
          · exact .inr h.symm
          · by_cases heq : x.parent ++ x.name ++ [sep] = d.folder
            · exact .inr heq
            · exact .inl ⟨h, heq⟩

end FileInfo

/-- A directory comes before what is below it. -/
theorem key_lt_of_isBelow
    {x d : FileInfo} (hname : sep ∉ x.name) (hne : x.name ≠ []) (hd : d.isDir = true)
    (hbelow : x.IsBelow d) :
  key d < key x
  := by
  have hhome : d.home = d.folder := if_pos hd
  have hlabel : d.label = [] := if_pos hd
  have hpre := (FileInfo.inSubtree_iff hname d).mp (.inl hbelow)
  by_cases heq : x.home = d.home
  · apply key_lt_of_label heq.symm hlabel
    cases hdir : x.isDir with
    | true =>
        -- a directory with the same folder would be the directory itself
        have hx : x.home = x.folder := if_pos hdir
        cases hbelow.2 ⟨hdir, by rw [← hx, heq, hhome]⟩
    | false =>
        have hx : x.label = x.name := by simp [FileInfo.label, hdir]
        rw [hx]
        exact hne
  · rw [← hhome] at hpre
    exact key_lt_of_subfolder hpre heq

/-- A file comes before the directories of its folder, and what is in them. -/
theorem key_lt_of_subdirectory
    {x y s : FileInfo} (hy : sep ∉ y.name) (hx : x.isDir = false) (hs : s.name ≠ [dot])
    (hparent : s.parent = x.parent) (hsubtree : y.InSubtree s) :
  key x < key y
  := by
  have hhome : x.home = x.parent := by simp [FileInfo.home, hx]
  have hfolder : s.folder = x.home ++ (s.name ++ [sep]) := by
    rw [FileInfo.folder, if_neg hs, hparent, hhome, List.append_assoc]
  obtain ⟨w, hw⟩ := (FileInfo.inSubtree_iff hy s).mp hsubtree
  rw [hfolder, List.append_assoc] at hw
  apply key_lt_of_subfolder ⟨_, hw⟩
  intro heq
  rw [heq] at hw
  simp at hw

/-! ### Sorted lists -/

/-- What a sorted file list looks like. -/
structure Nested (files : List FileInfo) : Prop where
  /-- A directory comes before what is below it. -/
  directoryFirst {i j : ℕ} {d x : FileInfo} (hi : files[i]? = some d) (hj : files[j]? = some x)
    (hd : d.isDir = true) (hx : x.IsBelow d) : i < j
  /-- A directory and what is below it stand together. -/
  together {i k j : ℕ} {x z y : FileInfo} (d : FileInfo) (hik : i ≤ k) (hkj : k ≤ j)
    (hi : files[i]? = some x) (hk : files[k]? = some z) (hj : files[j]? = some y)
    (hx : x.InSubtree d) (hy : y.InSubtree d) : z.InSubtree d
  /-- The files of a folder come before its directories and what is in them. -/
  filesFirst {i j : ℕ} {x y : FileInfo} (s : FileInfo) (hi : files[i]? = some x)
    (hj : files[j]? = some y) (hx : x.isDir = false) (hs : s.isDir = true) (hdot : s.name ≠ [dot])
    (hparent : s.parent = x.parent) (hy : y.InSubtree s) : i < j
  /-- Files that compare as equal have one path, or are one directory, which one of them calls
  `.`. -/
  same {a b : FileInfo} (ha : a ∈ files) (hb : b ∈ files) (h : fileCompare a b = .eq) :
    a.isDir = b.isDir ∧ (a.path = b.path ∨
      a.isDir = true ∧ a.folder = b.folder ∧ (a.name = [dot] ∨ b.name = [dot]))

/-- Files with the same key have one path, or are one directory. -/
theorem same_of_key
    {a b : FileInfo} (ha : a.name ≠ []) (hb : b.name ≠ []) (h : key a = key b) :
  a.isDir = b.isDir ∧ (a.path = b.path ∨
    a.isDir = true ∧ a.folder = b.folder ∧ (a.name = [dot] ∨ b.name = [dot]))
  := by
  obtain ⟨hhome, hlabel⟩ := key_inj h
  unfold FileInfo.home at hhome
  unfold FileInfo.label at hlabel
  rw [FileInfo.path_eq, FileInfo.path_eq]
  cases hda : a.isDir with
  | false =>
      cases hdb : b.isDir with
      | false =>
          simp only [hda, hdb, if_false, Bool.false_eq_true] at hhome hlabel
          exact ⟨rfl, .inl (by rw [hhome, hlabel])⟩
      | true =>
          simp only [hda, hdb, if_false, if_true, Bool.false_eq_true] at hlabel
          cases ha hlabel
  | true =>
      cases hdb : b.isDir with
      | false =>
          simp only [hda, hdb, if_false, if_true, Bool.false_eq_true] at hlabel
          cases hb hlabel.symm
      | true =>
          simp only [hda, hdb, if_true] at hhome
          refine ⟨rfl, ?_⟩
          by_cases hdot : a.name = [dot] ∨ b.name = [dot]
          · exact .inr ⟨rfl, hhome, hdot⟩
          · obtain ⟨hna, hnb⟩ := not_or.mp hdot
            rw [FileInfo.folder, FileInfo.folder, if_neg hna, if_neg hnb,
              List.append_cancel_right_eq] at hhome
            exact .inl hhome

/-- The comparison orders the files, and a sorted file list is nested. -/
theorem flistSort_nested :
  (∀ a, fileCompare a a = .eq) ∧
  (∀ a b, fileCompare b a = (fileCompare a b).swap) ∧
  (∀ a b c, fileCompare a b ≠ .gt → fileCompare b c ≠ .gt → fileCompare a c ≠ .gt) ∧
  ∀ flist : FileList, (∀ fi ∈ flist.files, sep ∉ fi.name ∧ fi.name ≠ []) →
    (flistSort flist).files.Perm flist.files ∧ Nested (flistSort flist).files
  := by
  refine ⟨?_, fileCompare_swap, ?_, ?_⟩
  · intro a
    exact (fileCompare_compares a a).eq_eq.mpr rfl
  · intro a b c hab hbc
    rw [fileCompare_ne_gt] at hab hbc ⊢
    exact le_trans hab hbc
  · intro flist hnames
    have hperm : (flistSort flist).files.Perm flist.files := List.mergeSort_perm _ _
    have hsorted : (flistSort flist).files.Pairwise (key · ≤ key ·) :=
      (pairwise_flistSort flist).imp fun h => (fileLe_iff_key _ _).mp h
    generalize (flistSort flist).files = files at hperm hsorted
    have hnames' : ∀ {i : ℕ} {x : FileInfo}, files[i]? = some x → sep ∉ x.name ∧ x.name ≠ [] := by
      intro i x hi
      exact hnames x (hperm.subset (List.mem_of_getElem? hi))
    have hindex : ∀ {i j : ℕ} {x y : FileInfo}, files[i]? = some x → files[j]? = some y →
        key x < key y → i < j := by
      intro i j x y hi hj hlt
      apply index_lt_of_pairwise hsorted _ (not_le.mpr hlt) hi hj
      rintro rfl
      exact lt_irrefl _ hlt
    refine ⟨hperm, ?_, ?_, ?_, ?_⟩
    · intro i j d x hi hj hd hx
      exact hindex hi hj (key_lt_of_isBelow (hnames' hj).1 (hnames' hj).2 hd hx)
    · intro i k j x z y d hik hkj hi hk hj hx hy
      rw [FileInfo.inSubtree_iff (hnames' hi).1, ← pathCodes_prefix_iff (v := x.label)] at hx
      rw [FileInfo.inSubtree_iff (hnames' hj).1, ← pathCodes_prefix_iff (v := y.label)] at hy
      rw [FileInfo.inSubtree_iff (hnames' hk).1, ← pathCodes_prefix_iff (v := z.label)]
      have hle : ∀ {i j : ℕ} {x y : FileInfo}, files[i]? = some x → files[j]? = some y →
          i ≤ j → key x ≤ key y := by
        intro i j x y hi hj hij
        by_contra hlt
        have hji := hindex hj hi (not_le.mp hlt)
        omega
      exact prefix_of_between hx hy (hle hi hk hik) (hle hk hj hkj)
    · intro i j x y s hi hj hx _ hdot hparent hy
      exact hindex hi hj (key_lt_of_subdirectory (hnames' hj).1 hx hdot hparent hy)
    · intro a b ha hb h
      obtain ⟨i, hi⟩ := List.mem_iff_getElem?.mp ha
      obtain ⟨j, hj⟩ := List.mem_iff_getElem?.mp hb
      apply same_of_key (hnames' hi).2 (hnames' hj).2
      exact (fileCompare_compares a b).eq_eq.mp h

/-- A directory with a file in it, which comes first in the list. -/
theorem flistSort_nested_two :
  Nested (flistSort { files := [
    { name := bytesOf "a", dirname := some (bytesOf "d"), mode := 0o100644 },
    { name := bytesOf "d", mode := 0o040755 }] }).files
  := by
  obtain ⟨-, -, -, hsorted⟩ := flistSort_nested
  apply (hsorted _ _).2
  decide

/-- A file without a name compares as equal to the directory that it is in. -/
theorem not_flistSort_nested :
  ¬ ∀ a b : FileInfo, (sep ∉ a.name ∧ (a.dirname, a.name) = splitName a.path) →
    (sep ∉ b.name ∧ (b.dirname, b.name) = splitName b.path) →
    a.name ≠ [dot] → b.name ≠ [dot] → fileCompare a b = .eq →
    a.path = b.path ∧ a.isDir = b.isDir
  := by
  intro h
  have hequal : fileCompare { dirname := some (bytesOf "d"), mode := 0o100644 }
      { name := bytesOf "d", mode := 0o040755 } = .eq := by
    apply (fileCompare_compares _ _).eq_eq.mpr
    decide
  have hsame := h { dirname := some (bytesOf "d"), mode := 0o100644 }
    { name := bytesOf "d", mode := 0o040755 } (by decide) (by decide) (by decide) (by decide) hequal
  revert hsame
  decide
