import Mathlib.Data.List.Lex
import Mathlib.Data.Ordering.Basic
import Mathlib.Data.List.Sort
import RsyncRs.Fs.Path
import RsyncRs.Protocol.Types

/-!
# Order of a file list

Both sides sort the file list, so that an index denotes the same file on either side. Names
are compared byte by byte, as walkers produce them: a walker goes through the directory, a
slash, the base name, and a slash after a directory, and says at each byte whether it is
inside a path or an item. Items come before paths.
-/

/-! ### Walkers -/

/-- What a walker is in. -/
inductive FncType where
  | item
  | path
deriving DecidableEq, Repr

/-- Which part of the name comes from a walker. -/
inductive FncState where
  | dir
  | slash
  | base
  | trailing
deriving DecidableEq, Repr

/-- A walker through the name of a file. -/
structure Walker where
  /-- The bytes of the part that are still to come. -/
  cur : List UInt8
  /-- What the walker is in. -/
  t : FncType
  /-- The part of the name. -/
  s : FncState
  /-- The file is a directory. -/
  isDir : Bool
  /-- The base name. -/
  base : Name
  /-- There is nothing more to come. -/
  done : Bool := false
deriving DecidableEq, Repr

namespace Walker

/-- A walker at the start of the name of a file. -/
def new (f : FileInfo) : Walker :=
  match f.dirname with
  | some d =>
    if d ≠ [] then
      { cur := d, t := .path, s := .dir, isDir := f.isDir, base := f.name }
    else
      atBase f
  | none => atBase f
where
  /-- A walker at the start of the base name of a file. -/
  atBase (f : FileInfo) : Walker :=
    if f.isDir ∧ f.name = [dot] then
      { cur := [], t := .item, s := .trailing, isDir := f.isDir, base := f.name }
    else
      { cur := f.name, t := if f.isDir then .path else .item, s := .base, isDir := f.isDir,
        base := f.name }

/-- The walker at the start of its next part. -/
def advance (w : Walker) : Walker :=
  match w.s with
  | .dir => { w with s := .slash, cur := [sep] }
  | .slash =>
    if w.isDir ∧ w.base = [dot] then
      { w with t := .item, s := .trailing, cur := [] }
    else
      { w with t := if w.isDir then .path else .item, s := .base, cur := w.base }
  | .base =>
    if w.t = .path then { w with s := .trailing, cur := [sep] }
    else { w with t := .item, s := .trailing, done := true }
  | .trailing => { w with t := .item, done := true }

/-- A bound on the steps that are still to come. -/
def remaining (w : Walker) : ℕ :=
  if w.done then 0
  else w.cur.length +
    match w.s with
    | .dir => w.base.length + 6
    | .slash => w.base.length + 4
    | .base => 3
    | .trailing => 1

theorem remaining_advance_lt
    {w : Walker} (hd : w.done = false) (hc : w.cur = []) :
  w.advance.remaining < w.remaining
  := by
  obtain ⟨cur, t, s, isDir, base, done⟩ := w
  subst hd hc
  cases s with
  | dir =>
      simp only [advance, remaining, List.length_cons, List.length_nil]
      grind
  | slash =>
      simp only [advance]
      split
      · simp [remaining]
      · simp [remaining]
  | base =>
      simp only [advance]
      split
      · simp [remaining]
      · simp [remaining]
  | trailing => simp [advance, remaining]

/-- The next byte, if there is one, and the walker after it. -/
def refill (w : Walker) : Option UInt8 × Walker :=
  if _hd : w.done then
    (none, w)
  else
    match _hc : w.cur with
    | b :: rest => (some b, { w with cur := rest })
    | [] => refill w.advance
termination_by w.remaining
decreasing_by
  apply remaining_advance_lt (by simpa using _hd) _hc

theorem remaining_refill_lt
    {w w' : Walker} {b : UInt8} (h : w.refill = (some b, w')) :
  w'.remaining < w.remaining
  := by
  induction hn : w.remaining using Nat.strong_induction_on generalizing w with
  | _ n ih =>
      subst hn
      rw [refill] at h
      split at h
      · cases h
      · next hd =>
        split at h
        · next b' rest hc =>
          cases h
          obtain ⟨cur, t, s, isDir, base, done⟩ := w
          simp only [Bool.not_eq_true] at hd
          dsimp only at hc hd
          subst hc hd
          simp [remaining]
        · next hc =>
          have hlt := remaining_advance_lt (by simpa using hd) hc
          have := ih _ hlt h rfl
          omega

end Walker

/-! ### Comparison -/

/-- Compare what comes from two walkers. -/
def fileCompareFrom (w₁ w₂ : Walker) : Ordering :=
  let x₁ := w₁.refill
  let x₂ := w₂.refill
  if x₁.2.t ≠ x₂.2.t then
    if x₁.2.t = .path then .gt else .lt
  else
    match _h₁ : x₁, x₂ with
    | (some b₁, w₁'), (some b₂, w₂') =>
      match compare b₁ b₂ with
      | .eq => fileCompareFrom w₁' w₂'
      | o => o
    | (some _, _), (none, _) => .gt
    | (none, _), (some _, _) => .lt
    | (none, _), (none, _) => .eq
termination_by w₁.remaining
decreasing_by
  apply Walker.remaining_refill_lt _h₁

/-- Compare two files by name. -/
def fileCompare (a b : FileInfo) : Ordering :=
  fileCompareFrom (.new a) (.new b)

/-! ### The order -/

namespace Walker

/-- A number for what comes from a walker: items before paths, and the end before every
byte. -/
def code (t : FncType) (r : Option UInt8) : ℕ :=
  (if t = .path then 257 else 0) + r.elim 0 fun b => b.toNat + 1

/-- What comes from a walker. -/
def codes (w : Walker) : List ℕ :=
  match _h : w.refill with
  | (some b, w') => code w'.t (some b) :: codes w'
  | (none, w') => [code w'.t none]
termination_by w.remaining
decreasing_by
  apply remaining_refill_lt _h

theorem codes_of_some
    {w w' : Walker} {b : UInt8} (h : w.refill = (some b, w')) :
  w.codes = code w'.t (some b) :: w'.codes
  := by
  rw [codes]
  split
  · next b' w'' h' =>
    cases h.symm.trans h'
    rfl
  · next w'' h' => cases h.symm.trans h'

theorem codes_of_none
    {w w' : Walker} (h : w.refill = (none, w')) :
  w.codes = [code w'.t none]
  := by
  rw [codes]
  split
  · next b' w'' h' => cases h.symm.trans h'
  · next w'' h' =>
    cases h.symm.trans h'
    rfl

end Walker

/-- Two walkers that are about to give bytes inside the same part. -/
theorem fileCompareFrom_some
    {w₁ w₂ v₁ v₂ : Walker} {b₁ b₂ : UInt8} (h₁ : w₁.refill = (some b₁, v₁))
    (h₂ : w₂.refill = (some b₂, v₂)) (ht : v₁.t = v₂.t) :
  fileCompareFrom w₁ w₂ =
    match compare b₁ b₂ with
    | .eq => fileCompareFrom v₁ v₂
    | o => o
  := by
  rw [fileCompareFrom]
  simp only [h₁, h₂, ht, ne_eq, not_true_eq_false, if_false]
  split
  · next e₁ e₂ =>
    cases h₁.symm.trans e₁
    cases e₂
    rfl
  · next e₁ e₂ => cases e₂
  · next e₁ e₂ => cases h₁.symm.trans e₁
  · next e₁ e₂ => cases h₁.symm.trans e₁

/-- Of two walkers that are inside different parts, the one inside an item comes first. -/
theorem fileCompareFrom_part
    {w₁ w₂ v₁ v₂ : Walker} {r₁ r₂ : Option UInt8} (h₁ : w₁.refill = (r₁, v₁))
    (h₂ : w₂.refill = (r₂, v₂)) (ht : v₁.t ≠ v₂.t) :
  fileCompareFrom w₁ w₂ = if v₁.t = .path then .gt else .lt
  := by
  rw [fileCompareFrom]
  simp only [h₁, h₂, ht, ne_eq, not_false_eq_true, if_true]

/-- Two walkers inside the same part, one of which has nothing more to give. -/
theorem fileCompareFrom_end
    {w₁ w₂ v₁ v₂ : Walker} {r₁ r₂ : Option UInt8} (h₁ : w₁.refill = (r₁, v₁))
    (h₂ : w₂.refill = (r₂, v₂)) (ht : v₁.t = v₂.t) (hr : r₁ = none ∨ r₂ = none) :
  fileCompareFrom w₁ w₂ = compare r₁.isSome r₂.isSome
  := by
  rw [fileCompareFrom]
  simp only [h₁, h₂, ht, ne_eq, not_true_eq_false, if_false]
  split
  · next e₁ e₂ =>
    cases h₁.symm.trans e₁
    cases e₂
    rcases hr with hr | hr <;> cases hr
  · next e₁ e₂ =>
    cases h₁.symm.trans e₁
    cases e₂
    rfl
  · next e₁ e₂ =>
    cases h₁.symm.trans e₁
    cases e₂
    rfl
  · next e₁ e₂ =>
    cases h₁.symm.trans e₁
    cases e₂
    rfl

/-- The lexicographic order, with the first elements apart. -/
theorem cons_le_cons
    {α : Type*} [LinearOrder α] {a b : α} {l m : List α} :
  a :: l ≤ b :: m ↔ a < b ∨ a = b ∧ l ≤ m
  := by
  have hlt : a :: l < b :: m ↔ a < b ∨ a = b ∧ l < m := List.cons_lt_cons_iff
  rw [le_iff_lt_or_eq, le_iff_lt_or_eq, hlt, List.cons.injEq]
  tauto

theorem Walker.code_lt
    {t₁ t₂ : FncType} (r₁ r₂ : Option UInt8) (h : t₁ ≠ t₂) :
  code t₁ r₁ < code t₂ r₂ ↔ t₂ = .path
  := by
  have h₁ : r₁.elim 0 (fun b => b.toNat + 1) ≤ 256 := by
    cases r₁ with
    | none => simp
    | some b =>
        have := b.toNat_lt
        simp
        omega
  have h₂ : r₂.elim 0 (fun b => b.toNat + 1) ≤ 256 := by
    cases r₂ with
    | none => simp
    | some b =>
        have := b.toNat_lt
        simp
        omega
  unfold code
  cases t₁ with
  | item =>
      cases t₂ with
      | item => cases h rfl
      | path =>
          simp only [reduceCtorEq, if_false, if_true, iff_true]
          omega
  | path =>
      cases t₂ with
      | item =>
          simp only [reduceCtorEq, if_false, if_true, iff_false]
          omega
      | path => cases h rfl

/-- Walkers are compared by what comes from them. -/
theorem fileCompareFrom_ne_gt
    (w₁ w₂ : Walker) :
  fileCompareFrom w₁ w₂ ≠ .gt ↔ w₁.codes ≤ w₂.codes
  := by
  induction hn : w₁.remaining using Nat.strong_induction_on generalizing w₁ w₂ with
  | _ n ih =>
      subst hn
      rcases h₁ : w₁.refill with ⟨r₁, v₁⟩
      rcases h₂ : w₂.refill with ⟨r₂, v₂⟩
      by_cases ht : v₁.t = v₂.t
      · cases r₁ with
        | none =>
            rw [fileCompareFrom_end h₁ h₂ ht (.inl rfl), Walker.codes_of_none h₁]
            cases r₂ with
            | none =>
                rw [Walker.codes_of_none h₂, ht]
                simp
            | some b₂ =>
                rw [Walker.codes_of_some h₂, cons_le_cons, ht]
                simp [Walker.code]
        | some b₁ =>
            rw [Walker.codes_of_some h₁]
            cases r₂ with
            | none =>
                rw [fileCompareFrom_end h₁ h₂ ht (.inr rfl), Walker.codes_of_none h₂,
                  cons_le_cons, ht]
                simp [Walker.code, compare]
            | some b₂ =>
                rw [fileCompareFrom_some h₁ h₂ ht, Walker.codes_of_some h₂, cons_le_cons, ht]
                have ih' := ih v₁.remaining (Walker.remaining_refill_lt h₁) v₁ v₂ rfl
                rw [← ih']
                rcases lt_trichotomy b₁.toNat b₂.toNat with hb | hb | hb
                · have hc : compare b₁ b₂ = .lt := if_pos hb
                  simp [hc, Walker.code, hb]
                · obtain rfl := UInt8.toNat_inj.mp hb
                  simp
                · have hc : compare b₁ b₂ = .gt := by
                    have hlt : ¬ b₁ < b₂ := fun h => absurd (UInt8.lt_iff_toNat_lt.mp h) (by omega)
                    have hne : b₁ ≠ b₂ := by
                      rintro rfl
                      omega
                    simp [compare, compareOfLessAndEq, hlt, hne]
                  simp [hc, Walker.code]
                  omega
      · rw [fileCompareFrom_part h₁ h₂ ht]
        have hlt := Walker.code_lt r₁ r₂ ht
        have hgt := Walker.code_lt r₂ r₁ (Ne.symm ht)
        have hhead : ∀ {w v : Walker} {r : Option UInt8}, w.refill = (r, v) →
            ∃ l, w.codes = Walker.code v.t r :: l := by
          intro w v r h
          cases r with
          | none => apply Exists.intro [] (Walker.codes_of_none h)
          | some b => apply Exists.intro v.codes (Walker.codes_of_some h)
        obtain ⟨l₁, hl₁⟩ := hhead h₁
        obtain ⟨l₂, hl₂⟩ := hhead h₂
        rw [hl₁, hl₂, cons_le_cons]
        cases ht₁ : v₁.t with
        | path =>
            have hlt₂ := hgt.mpr ht₁
            simp only [ht₁] at hlt₂ ⊢
            simp
            omega
        | item =>
            have ht₂ : v₂.t = .path := by
              cases h₂' : v₂.t with
              | path => rfl
              | item => cases ht (ht₁.trans h₂'.symm)
            have hlt₁ := hlt.mpr ht₂
            simp only [ht₁] at hlt₁ ⊢
            simp [hlt₁]

theorem fileCompare_ne_gt
    (a b : FileInfo) :
  fileCompare a b ≠ .gt ↔ (Walker.new a).codes ≤ (Walker.new b).codes
  := fileCompareFrom_ne_gt _ _

/-! ### Sorting -/

/-- The first file does not come after the second one. -/
def fileLe (a b : FileInfo) : Bool :=
  fileCompare a b ≠ .gt

theorem fileLe_iff
    (a b : FileInfo) :
  fileLe a b = true ↔ (Walker.new a).codes ≤ (Walker.new b).codes
  := by
  rw [fileLe, decide_eq_true_iff, fileCompare_ne_gt]

theorem fileLe_trans
    (a b c : FileInfo) (h₁ : fileLe a b = true) (h₂ : fileLe b c = true) :
  fileLe a c = true
  := by
  rw [fileLe_iff] at *
  apply le_trans h₁ h₂

theorem fileLe_total
    (a b : FileInfo) :
  (fileLe a b || fileLe b a) = true
  := by
  rw [Bool.or_eq_true, fileLe_iff, fileLe_iff]
  apply le_total

/-- The comparison looks at the names and at what is a directory. -/
theorem Walker.new_congr
    {a b : FileInfo} (hname : a.name = b.name) (hdirname : a.dirname = b.dirname)
    (hmode : a.mode = b.mode) :
  Walker.new a = Walker.new b
  := by
  have hdir : a.isDir = b.isDir := by
    rw [FileInfo.isDir, FileInfo.isDir, FileInfo.fileType, FileInfo.fileType, hmode]
  rw [new, new, hdirname, new.atBase, new.atBase, hname, hdir]

/-- Sort a file list. -/
def flistSort (flist : FileList) : FileList :=
  { flist with files := flist.files.mergeSort fileLe,
               sorted := List.range flist.files.length }

/-- The files of a sorted list are in order. -/
theorem pairwise_flistSort
    (flist : FileList) :
  (flistSort flist).files.Pairwise (fileLe · ·)
  := List.pairwise_mergeSort fileLe_trans fileLe_total flist.files
