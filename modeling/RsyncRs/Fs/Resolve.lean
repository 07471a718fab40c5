import RsyncRs.Fs.Locate

/-!
# Paths through links

Where the components of a path lead depends on which of the places on the way are directories and
which are symbolic links. A file at a place, or nothing, is all the same to the paths that go past
it.
-/

/-- What a path meets at a place. -/
inductive Shape where
  | dir
  | link (target : FsPath)
  /-- Another file, or nothing. -/
  | leaf
deriving DecidableEq, Repr

namespace FsPath

variable {shape shape' : Location → Shape}

/-- Follow the components of a path from the directory `cur`; `onLink` follows those of a link.
A link that comes last is followed when `last` says so. -/
def follow (onLink : Location → List FsPath → Option Location) (shape : Location → Shape)
    (last : Bool) (cur : Location) : List FsPath → Option Location
  | [] => some cur
  | part :: rest =>
    if shape cur ≠ .dir then none
    else if part = [] ∨ part = [dot] then follow onLink shape last cur rest
    else if part = [dot, dot] then follow onLink shape last cur.dropLast rest
    else if rest = [] ∧ last = false then some (cur ++ [part])
    else
      match shape (cur ++ [part]) with
      | .dir => follow onLink shape last (cur ++ [part]) rest
      | .link target => onLink (if isAbsolute target then [] else cur) (target.splitOn sep ++ rest)
      | .leaf => if rest = [] then some (cur ++ [part]) else none

/-- The places that a path meets on the way. -/
def meets (onLink : Location → List FsPath → List Location) (shape : Location → Shape)
    (last : Bool) (cur : Location) : List FsPath → List Location
  | [] => []
  | part :: rest =>
    cur ::
      if shape cur ≠ .dir then []
      else if part = [] ∨ part = [dot] then meets onLink shape last cur rest
      else if part = [dot, dot] then meets onLink shape last cur.dropLast rest
      else if rest = [] ∧ last = false then []
      else
        (cur ++ [part]) ::
          match shape (cur ++ [part]) with
          | .dir => meets onLink shape last (cur ++ [part]) rest
          | .link target =>
            onLink (if isAbsolute target then [] else cur) (target.splitOn sep ++ rest)
          | .leaf => []

/-- Follow the components of a path through at most `links` links. -/
def resolveFrom (shape : Location → Shape) (last : Bool) :
    ℕ → Location → List FsPath → Option Location
  | 0 => follow (fun _ _ => none) shape last
  | links + 1 => follow (resolveFrom shape last links) shape last

/-- The places that a path through at most `links` links meets. -/
def trailFrom (shape : Location → Shape) (last : Bool) : ℕ → Location → List FsPath → List Location
  | 0 => meets (fun _ _ => []) shape last
  | links + 1 => meets (trailFrom shape last links) shape last

/-- The number of links that a path may go through. -/
def maxLinks : ℕ := 40

/-- The place that a path names, which may be empty. -/
def resolve (shape : Location → Shape) (cwd : Location) (last : Bool) (p : FsPath) :
    Option Location :=
  if p = [] then none
  else resolveFrom shape last maxLinks (if isAbsolute p then [] else cwd) (p.splitOn sep)

/-- The places on the way of a path. -/
def trail (shape : Location → Shape) (cwd : Location) (last : Bool) (p : FsPath) :
    List Location :=
  trailFrom shape last maxLinks (if isAbsolute p then [] else cwd) (p.splitOn sep)

theorem follow_congr
    {onLink onLink' : Location → List FsPath → Option Location}
    {onMeet : Location → List FsPath → List Location} {last : Bool}
    (hlink : ∀ cur parts, (∀ l ∈ onMeet cur parts, shape' l = shape l) →
      onLink' cur parts = onLink cur parts) {cur : Location} {parts : List FsPath}
    (h : ∀ l ∈ meets onMeet shape last cur parts, shape' l = shape l) :
  follow onLink' shape' last cur parts = follow onLink shape last cur parts
  := by
  induction parts generalizing cur with
  | nil => rfl
  | cons part rest ih =>
      rw [meets] at h
      have hcur := h cur List.mem_cons_self
      have h' := fun l hl => h l (List.mem_cons_of_mem _ hl)
      rw [follow, follow, hcur]
      split
      · rfl
      next hdir =>
      rw [if_neg hdir] at h'
      split
      · next htrivial =>
        rw [if_pos htrivial] at h'
        exact ih h'
      next htrivial =>
      rw [if_neg htrivial] at h'
      split
      · next hdots =>
        rw [if_pos hdots] at h'
        exact ih h'
      next hdots =>
      rw [if_neg hdots] at h'
      split
      · rfl
      next hlast =>
      rw [if_neg hlast] at h'
      rw [h' _ List.mem_cons_self]
      have h'' := fun l hl => h' l (List.mem_cons_of_mem _ hl)
      cases hshape : shape (cur ++ [part]) with
      | dir =>
          rw [hshape] at h''
          exact ih h''
      | link target =>
          rw [hshape] at h''
          exact hlink _ _ h''
      | leaf => rfl

theorem resolveFrom_congr
    {last : Bool} (links : ℕ) {cur : Location} {parts : List FsPath}
    (h : ∀ l ∈ trailFrom shape last links cur parts, shape' l = shape l) :
  resolveFrom shape' last links cur parts = resolveFrom shape last links cur parts
  := by
  induction links generalizing cur parts with
  | zero => exact follow_congr (fun _ _ _ => rfl) h
  | succ links ih => exact follow_congr (fun _ _ hmeet => ih hmeet) h

/-- A path leads where it did when what it meets has not changed. -/
theorem resolve_congr
    {cwd : Location} {last : Bool} {p : FsPath}
    (h : ∀ l ∈ trail shape cwd last p, shape' l = shape l) :
  resolve shape' cwd last p = resolve shape cwd last p
  := by
  unfold resolve
  split
  · rfl
  · exact resolveFrom_congr maxLinks h

theorem meets_congr
    {onMeet onMeet' : Location → List FsPath → List Location} {last : Bool}
    (hlink : ∀ cur parts, (∀ l ∈ onMeet cur parts, shape' l = shape l) →
      onMeet' cur parts = onMeet cur parts) {cur : Location} {parts : List FsPath}
    (h : ∀ l ∈ meets onMeet shape last cur parts, shape' l = shape l) :
  meets onMeet' shape' last cur parts = meets onMeet shape last cur parts
  := by
  induction parts generalizing cur with
  | nil => rfl
  | cons part rest ih =>
      rw [meets] at h
      have hcur := h cur List.mem_cons_self
      have h' := fun l hl => h l (List.mem_cons_of_mem _ hl)
      rw [meets, meets, hcur]
      apply congrArg (List.cons cur)
      split
      · rfl
      next hdir =>
      rw [if_neg hdir] at h'
      split
      · next htrivial =>
        rw [if_pos htrivial] at h'
        exact ih h'
      next htrivial =>
      rw [if_neg htrivial] at h'
      split
      · next hdots =>
        rw [if_pos hdots] at h'
        exact ih h'
      next hdots =>
      rw [if_neg hdots] at h'
      split
      · rfl
      next hlast =>
      rw [if_neg hlast] at h'
      rw [h' _ List.mem_cons_self]
      apply congrArg (List.cons _)
      have h'' := fun l hl => h' l (List.mem_cons_of_mem _ hl)
      cases hshape : shape (cur ++ [part]) with
      | dir =>
          rw [hshape] at h''
          exact ih h''
      | link target =>
          rw [hshape] at h''
          exact hlink _ _ h''
      | leaf => rfl

theorem trailFrom_congr
    {last : Bool} (links : ℕ) {cur : Location} {parts : List FsPath}
    (h : ∀ l ∈ trailFrom shape last links cur parts, shape' l = shape l) :
  trailFrom shape' last links cur parts = trailFrom shape last links cur parts
  := by
  induction links generalizing cur parts with
  | zero => exact meets_congr (fun _ _ _ => rfl) h
  | succ links ih => exact meets_congr (fun _ _ hmeet => ih hmeet) h

/-- A path meets what it did when that has not changed. -/
theorem trail_congr
    {cwd : Location} {last : Bool} {p : FsPath}
    (h : ∀ l ∈ trail shape cwd last p, shape' l = shape l) :
  trail shape' cwd last p = trail shape cwd last p
  := trailFrom_congr maxLinks h

/-! ### Places that are met -/

variable {cwd cur l : Location} {last : Bool} {p : FsPath} {parts : List FsPath}
  {onLink onLink' : Location → List FsPath → Option Location}
  {onMeet : Location → List FsPath → List Location}

theorem follow_met
    (hlink : ∀ cur parts, onLink cur parts = some l →
      ∀ l' ∈ onMeet cur parts, shape l' ≠ .leaf ∨ last = true ∧ l' = l)
    (h : follow onLink shape last cur parts = some l) :
  ∀ l' ∈ meets onMeet shape last cur parts, shape l' ≠ .leaf ∨ last = true ∧ l' = l
  := by
  induction parts generalizing cur with
  | nil => exact fun _ hl' => absurd hl' List.not_mem_nil
  | cons part rest ih =>
      rw [follow] at h
      split at h
      · cases h
      next hdir =>
      intro l' hl'
      rw [meets, if_neg hdir] at hl'
      rcases List.mem_cons.mp hl' with rfl | hl'
      · left
        rw [not_not.mp hdir]
        rintro ⟨⟩
      split at h
      · next htrivial =>
        rw [if_pos htrivial] at hl'
        exact ih h l' hl'
      next htrivial =>
      rw [if_neg htrivial] at hl'
      split at h
      · next hdots =>
        rw [if_pos hdots] at hl'
        exact ih h l' hl'
      next hdots =>
      rw [if_neg hdots] at hl'
      split at h
      · next hlast =>
        rw [if_pos hlast] at hl'
        exact absurd hl' List.not_mem_nil
      next hlast =>
      rw [if_neg hlast] at hl'
      cases hshape : shape (cur ++ [part]) with
      | dir =>
          rw [hshape] at h hl'
          rcases List.mem_cons.mp hl' with rfl | hl'
          · left
            rw [hshape]
            rintro ⟨⟩
          · exact ih h l' hl'
      | link target =>
          rw [hshape] at h hl'
          rcases List.mem_cons.mp hl' with rfl | hl'
          · left
            rw [hshape]
            rintro ⟨⟩
          · exact hlink _ _ h l' hl'
      | leaf =>
          rw [hshape] at h hl'
          dsimp only at h hl'
          split at h
          · next hrest =>
            cases h
            right
            constructor
            · cases last with
              | true => rfl
              | false => exact absurd ⟨hrest, rfl⟩ hlast
            · exact List.mem_singleton.mp hl'
          · cases h

theorem resolveFrom_met
    (links : ℕ) (h : resolveFrom shape last links cur parts = some l) :
  ∀ l' ∈ trailFrom shape last links cur parts, shape l' ≠ .leaf ∨ last = true ∧ l' = l
  := by
  induction links generalizing cur parts with
  | zero =>
      apply follow_met ?_ h
      intro _ _ h
      cases h
  | succ links ih => exact follow_met (fun _ _ h => ih h) h

/-- On the way of a path that leads somewhere there are directories and links only. -/
theorem resolve_met
    (h : resolve shape cwd last p = some l) :
  ∀ l' ∈ trail shape cwd last p, shape l' ≠ .leaf ∨ last = true ∧ l' = l
  := by
  unfold resolve at h
  split at h
  · cases h
  · exact resolveFrom_met maxLinks h

/-! ### The last component -/

theorem follow_last
    (hlink : ∀ cur parts, (onLink cur parts).isSome → (onLink' cur parts).isSome)
    (hend : ∀ cur parts l, onLink' cur parts = some l → (∀ target, shape l ≠ .link target) →
      (onLink cur parts).isSome → onLink cur parts = some l)
    (h : (follow onLink shape true cur parts).isSome) :
  ∃ l, follow onLink' shape false cur parts = some l ∧
    ((∀ target, shape l ≠ .link target) → follow onLink shape true cur parts = some l)
  := by
  induction parts generalizing cur with
  | nil => exact ⟨cur, rfl, fun _ => rfl⟩
  | cons part rest ih =>
      rw [follow] at h ⊢
      split at h
      · cases h
      next hdir =>
      rw [if_neg hdir, follow, if_neg hdir]
      split at h
      · next htrivial =>
        rw [if_pos htrivial, if_pos htrivial]
        exact ih h
      next htrivial =>
      rw [if_neg htrivial, if_neg htrivial]
      split at h
      · next hdots =>
        rw [if_pos hdots, if_pos hdots]
        exact ih h
      next hdots =>
      rw [if_neg hdots, if_neg hdots]
      have hlast : ¬(rest = [] ∧ true = false) := fun h => Bool.noConfusion h.2
      rw [if_neg hlast] at h ⊢
      by_cases hrest : rest = []
      · rw [if_pos ⟨hrest, rfl⟩]
        refine ⟨_, rfl, fun hplain => ?_⟩
        rw [hrest]
        cases hshape : shape (cur ++ [part]) with
        | dir => rfl
        | link target => exact absurd hshape (hplain target)
        | leaf => rfl
      · rw [if_neg fun h => hrest h.1]
        cases hshape : shape (cur ++ [part]) with
        | dir =>
            rw [hshape] at h
            exact ih h
        | link target =>
            rw [hshape] at h
            obtain ⟨l, hl⟩ := Option.isSome_iff_exists.mp (hlink _ _ h)
            exact ⟨l, hl, fun hplain => hend _ _ _ hl hplain h⟩
        | leaf =>
            rw [hshape] at h
            dsimp only at h
            rw [if_neg hrest] at h
            cases h

theorem resolveFrom_last
    (links : ℕ) (h : (resolveFrom shape true links cur parts).isSome) :
  ∃ l, resolveFrom shape false links cur parts = some l ∧
    ((∀ target, shape l ≠ .link target) → resolveFrom shape true links cur parts = some l)
  := by
  induction links generalizing cur parts with
  | zero => exact follow_last (fun _ _ h => h) (fun _ _ _ h _ _ => h) h
  | succ links ih =>
      apply follow_last ?_ ?_ h
      · intro cur parts h
        obtain ⟨l, hl, -⟩ := ih h
        exact Option.isSome_iff_exists.mpr ⟨l, hl⟩
      · intro cur parts l hl hplain h
        obtain ⟨l', hl', htrue⟩ := ih h
        cases hl.symm.trans hl'
        exact htrue hplain

/-- A path that leads somewhere through links names a place itself, the same one unless that is a
link. -/
theorem resolve_last
    (h : (resolve shape cwd true p).isSome) :
  ∃ l, resolve shape cwd false p = some l ∧
    ((∀ target, shape l ≠ .link target) → resolve shape cwd true p = some l)
  := by
  unfold resolve at h ⊢
  split at h
  · cases h
  next hp =>
  rw [if_neg hp, if_neg hp]
  exact resolveFrom_last maxLinks h

/-! ### Links that are taken away -/

theorem follow_leaf
    (hlink : ∀ cur parts, onLink cur parts = some l → ∀ l', onLink' cur parts = some l' → l' = l)
    (hleaf : shape' l = .leaf) (hother : ∀ l', l' ≠ l → shape' l' = shape l')
    (h : follow onLink shape false cur parts = some l) {l' : Location}
    (h' : follow onLink' shape' true cur parts = some l') :
  l' = l
  := by
  induction parts generalizing cur with
  | nil =>
      cases h
      cases h'
      rfl
  | cons part rest ih =>
      rw [follow] at h h'
      split at h
      · cases h
      split at h'
      · cases h'
      split at h
      · next htrivial =>
        rw [if_pos htrivial] at h'
        exact ih h h'
      next htrivial =>
      rw [if_neg htrivial] at h'
      split at h
      · next hdots =>
        rw [if_pos hdots] at h'
        exact ih h h'
      next hdots =>
      rw [if_neg hdots, if_neg fun h => Bool.noConfusion h.2] at h'
      split at h
      · cases h
        rw [hleaf] at h'
        dsimp only at h'
        split at h'
        · exact (Option.some.inj h').symm
        · cases h'
      next hlast =>
      have hrest : rest ≠ [] := fun hrest => hlast ⟨hrest, rfl⟩
      by_cases heq : cur ++ [part] = l
      · rw [heq, hleaf] at h'
        dsimp only at h'
        rw [if_neg hrest] at h'
        cases h'
      · rw [hother _ heq] at h'
        cases hshape : shape (cur ++ [part]) with
        | dir =>
            rw [hshape] at h h'
            exact ih h h'
        | link target =>
            rw [hshape] at h h'
            exact hlink _ _ h _ h'
        | leaf =>
            rw [hshape] at h
            dsimp only at h
            rw [if_neg hrest] at h
            cases h

theorem resolveFrom_leaf
    (links : ℕ) (hleaf : shape' l = .leaf) (hother : ∀ l', l' ≠ l → shape' l' = shape l')
    (h : resolveFrom shape false links cur parts = some l) {l' : Location}
    (h' : resolveFrom shape' true links cur parts = some l') :
  l' = l
  := by
  induction links generalizing cur parts l' with
  | zero =>
      apply follow_leaf ?_ hleaf hother h h'
      intro _ _ h
      cases h
  | succ links ih => exact follow_leaf (fun _ _ h _ h' => ih h h') hleaf hother h h'

/-- Where the link that a path names itself is taken away, the path leads there or nowhere. -/
theorem resolve_leaf
    (hleaf : shape' l = .leaf) (hother : ∀ l', l' ≠ l → shape' l' = shape l')
    (h : resolve shape cwd false p = some l) {l' : Location}
    (h' : resolve shape' cwd true p = some l') :
  l' = l
  := by
  unfold resolve at h h'
  split at h
  · cases h
  next hp =>
  rw [if_neg hp] at h'
  exact resolveFrom_leaf maxLinks hleaf hother h h'

theorem follow_taken
    (hlink : ∀ cur parts l', onLink' cur parts = some l' → l' ≠ l → onLink cur parts = some l')
    (hleaf : shape' l = .leaf) (hother : ∀ l', l' ≠ l → shape' l' = shape l') {l' : Location}
    (h : follow onLink' shape' last cur parts = some l') (hne : l' ≠ l) :
  follow onLink shape last cur parts = some l'
  := by
  induction parts generalizing cur with
  | nil => exact h
  | cons part rest ih =>
      rw [follow] at h ⊢
      split at h
      · cases h
      next hdir =>
      have hcur : cur ≠ l := by
        rintro rfl
        rw [hleaf] at hdir
        exact hdir nofun
      rw [← hother cur hcur, if_neg hdir]
      split at h
      · next htrivial =>
        rw [if_pos htrivial]
        exact ih h
      next htrivial =>
      rw [if_neg htrivial]
      split at h
      · next hdots =>
        rw [if_pos hdots]
        exact ih h
      next hdots =>
      rw [if_neg hdots]
      split at h
      · next hlast =>
        rw [if_pos hlast]
        exact h
      next hlast =>
      rw [if_neg hlast]
      by_cases heq : cur ++ [part] = l
      · rw [heq, hleaf] at h
        dsimp only at h
        split at h
        · exact absurd (Option.some.inj h).symm hne
        · cases h
      · rw [← hother _ heq]
        cases hshape : shape' (cur ++ [part]) with
        | dir =>
            rw [hshape] at h
            exact ih h
        | link target =>
            rw [hshape] at h
            exact hlink _ _ l' h hne
        | leaf =>
            rw [hshape] at h
            exact h

theorem resolveFrom_taken
    (links : ℕ) (hleaf : shape' l = .leaf) (hother : ∀ l', l' ≠ l → shape' l' = shape l')
    {l' : Location} (h : resolveFrom shape' last links cur parts = some l') (hne : l' ≠ l) :
  resolveFrom shape last links cur parts = some l'
  := by
  induction links generalizing cur parts l' with
  | zero =>
      apply follow_taken ?_ hleaf hother h hne
      intro _ _ _ h
      cases h
  | succ links ih => exact follow_taken (fun _ _ _ h hne => ih h hne) hleaf hother h hne

/-- Where what is at a place is taken away, a path leads to that place or where it led before, if
anywhere. -/
theorem resolve_taken
    (hleaf : shape' l = .leaf) (hother : ∀ l', l' ≠ l → shape' l' = shape l') {l' : Location}
    (h : resolve shape' cwd last p = some l') (hne : l' ≠ l) :
  resolve shape cwd last p = some l'
  := by
  unfold resolve at h ⊢
  split at h
  · cases h
  next hp =>
  rw [if_neg hp]
  exact resolveFrom_taken maxLinks hleaf hother h hne

theorem follow_final
    (hlink : ∀ cur parts, onLink cur parts = some l → onLink' cur parts = some l)
    (hleaf : shape l = .leaf) (h : follow onLink shape false cur parts = some l) :
  follow onLink' shape true cur parts = some l
  := by
  induction parts generalizing cur with
  | nil => exact h
  | cons part rest ih =>
      rw [follow] at h ⊢
      split at h
      · cases h
      next hdir =>
      rw [if_neg hdir]
      split at h
      · next htrivial =>
        rw [if_pos htrivial]
        exact ih h
      next htrivial =>
      rw [if_neg htrivial]
      split at h
      · next hdots =>
        rw [if_pos hdots]
        exact ih h
      next hdots =>
      rw [if_neg hdots, if_neg fun h => Bool.noConfusion h.2]
      split at h
      · next hlast =>
        cases h
        rw [hleaf]
        exact if_pos hlast.1
      · cases hshape : shape (cur ++ [part]) with
        | dir =>
            rw [hshape] at h
            exact ih h
        | link target =>
            rw [hshape] at h
            exact hlink _ _ h
        | leaf =>
            rw [hshape] at h
            exact h

theorem resolveFrom_final
    (links : ℕ) (hleaf : shape l = .leaf) (h : resolveFrom shape false links cur parts = some l) :
  resolveFrom shape true links cur parts = some l
  := by
  induction links generalizing cur parts with
  | zero =>
      apply follow_final ?_ hleaf h
      intro _ _ h
      cases h
  | succ links ih => exact follow_final (fun _ _ h => ih h) hleaf h

/-- A path that names itself no link leads to what it names. -/
theorem resolve_final
    (hleaf : shape l = .leaf) (h : resolve shape cwd false p = some l) :
  resolve shape cwd true p = some l
  := by
  unfold resolve at h ⊢
  split at h
  · cases h
  next hp =>
  rw [if_neg hp]
  exact resolveFrom_final maxLinks hleaf h

end FsPath
