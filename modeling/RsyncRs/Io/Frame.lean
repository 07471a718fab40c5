import Mathlib.Data.List.Basic
import RsyncRs.Bytes

/-!
# Frames of a multiplexed stream

A frame has a header of four bytes, the length of its payload in three of them and a tag in
the last one, and its payload. Frames of any kind share one stream. `outline` cuts a stream
into frames up to the first tag that is not known, and `nextData` passes over what carries no
data.
-/

/-- A frame as it lies in a stream. The payload may be cut off by the end of the stream. -/
structure Frame where
  /-- The last byte of the header. -/
  tag : UInt8
  /-- The length that the header announces. -/
  len : ℕ
  /-- What there is of the payload. -/
  payload : List UInt8
deriving DecidableEq, Repr

namespace Frame

/-- The frame has the whole payload that its header announces. -/
def Complete (f : Frame) : Prop :=
  f.payload.length = f.len ∧ f.len < 256 ^ 3

/-- The header and the payload. -/
def bytes (f : Frame) : List UInt8 :=
  leBytes 3 f.len ++ f.tag :: f.payload

/-- What the frames with a tag in `isData` carry. -/
def dataOf (isData : UInt8 → Bool) (fs : List Frame) : List UInt8 :=
  fs.flatMap fun f => if isData f.tag then f.payload else []

@[simp]
theorem dataOf_nil
    (isData : UInt8 → Bool) :
  dataOf isData [] = []
  := rfl

@[simp]
theorem dataOf_cons
    (isData : UInt8 → Bool) (f : Frame) (fs : List Frame) :
  dataOf isData (f :: fs) = (if isData f.tag then f.payload else []) ++ dataOf isData fs
  := List.flatMap_cons

@[simp]
theorem dataOf_append
    (isData : UInt8 → Bool) (fs fs' : List Frame) :
  dataOf isData (fs ++ fs') = dataOf isData fs ++ dataOf isData fs'
  := List.flatMap_append

/-! ### The frames of a stream -/

/-- The frames at the front of the stream whose tags are known, and the stream from the first
header that is cut off or has another tag. -/
def outline (known : UInt8 → Bool) : List UInt8 → List Frame × List UInt8
  | b₀ :: b₁ :: b₂ :: tag :: rest =>
      if known tag then
        let len := ofLeBytes [b₀, b₁, b₂]
        let (fs, left) := outline known (rest.drop len)
        (⟨tag, len, rest.take len⟩ :: fs, left)
      else
        ([], b₀ :: b₁ :: b₂ :: tag :: rest)
  | bs => ([], bs)
termination_by bs => bs.length
decreasing_by
  simp only [List.length_drop, List.length_cons]
  omega

/-- The length announced by the first header with a tag in `isData` that announces a payload,
and the stream after that header; `none` when there is no such header before the end of the
stream or a tag that is not known. -/
def nextData (known isData : UInt8 → Bool) : List UInt8 → Option (ℕ × List UInt8)
  | b₀ :: b₁ :: b₂ :: tag :: rest =>
      let len := ofLeBytes [b₀, b₁, b₂]
      if ¬ known tag then
        none
      else if isData tag ∧ len ≠ 0 then
        some (len, rest)
      else
        nextData known isData (rest.drop len)
  | _ => none
termination_by bs => bs.length
decreasing_by
  simp only [List.length_drop, List.length_cons]
  omega

section

variable {known known' isData : UInt8 → Bool}

/-- A stream that is too short for a header has no frames. -/
theorem outline_of_short
    {bs : List UInt8} (h : bs.length < 4) :
  outline known bs = ([], bs)
  := by
  unfold outline
  split
  · simp only [List.length_cons] at h
    omega
  · rfl

@[simp]
theorem outline_nil :
  outline known [] = ([], [])
  := outline_of_short (by simp)

theorem nextData_of_short
    {bs : List UInt8} (h : bs.length < 4) :
  nextData known isData bs = none
  := by
  unfold nextData
  split
  · simp only [List.length_cons] at h
    omega
  · rfl

theorem outline_cons
    (b₀ b₁ b₂ tag : UInt8) (rest : List UInt8) :
  outline known (b₀ :: b₁ :: b₂ :: tag :: rest) =
    if known tag then
      (⟨tag, ofLeBytes [b₀, b₁, b₂], rest.take (ofLeBytes [b₀, b₁, b₂])⟩ ::
          (outline known (rest.drop (ofLeBytes [b₀, b₁, b₂]))).1,
        (outline known (rest.drop (ofLeBytes [b₀, b₁, b₂]))).2)
    else
      ([], b₀ :: b₁ :: b₂ :: tag :: rest)
  := by
  rw [outline]

theorem nextData_cons
    (b₀ b₁ b₂ tag : UInt8) (rest : List UInt8) :
  nextData known isData (b₀ :: b₁ :: b₂ :: tag :: rest) =
    if ¬ known tag then
      none
    else if isData tag ∧ ofLeBytes [b₀, b₁, b₂] ≠ 0 then
      some (ofLeBytes [b₀, b₁, b₂], rest)
    else
      nextData known isData (rest.drop (ofLeBytes [b₀, b₁, b₂]))
  := by
  rw [nextData]

/-- A stream is too short for a header, or starts with one. -/
theorem short_or_header
    (bs : List UInt8) :
  bs.length < 4 ∨ ∃ b₀ b₁ b₂ tag rest, bs = b₀ :: b₁ :: b₂ :: tag :: rest
  := by
  match bs with
  | b₀ :: b₁ :: b₂ :: tag :: rest => exact Or.inr ⟨b₀, b₁, b₂, tag, rest, rfl⟩
  | [] | [_] | [_, _] | [_, _, _] => exact Or.inl (by simp)

/-- Induction over the headers of a stream. -/
theorem headers_induction
    {φ : List UInt8 → Prop} (short : ∀ bs, bs.length < 4 → φ bs)
    (header : ∀ b₀ b₁ b₂ tag rest, φ (rest.drop (ofLeBytes [b₀, b₁, b₂])) →
      φ (b₀ :: b₁ :: b₂ :: tag :: rest))
    (bs : List UInt8) :
  φ bs
  := by
  induction hn : bs.length using Nat.strong_induction_on generalizing bs with
  | h n ih =>
      rcases short_or_header bs with hs | ⟨b₀, b₁, b₂, tag, rest, rfl⟩
      · apply short bs hs
      · apply header
        apply ih _ _ _ rfl
        simp only [List.length_cons] at hn
        rw [List.length_drop]
        omega

/-- Frames at the front of a stream are found again. -/
theorem outline_append
    {fs : List Frame} (hfs : ∀ f ∈ fs, f.Complete ∧ known f.tag) (bs : List UInt8) :
  outline known (fs.flatMap bytes ++ bs) = (fs ++ (outline known bs).1, (outline known bs).2)
  := by
  induction fs with
  | nil => rfl
  | cons f fs ih =>
      obtain ⟨⟨hlen, hlt⟩, hknown⟩ := hfs f (List.mem_cons_self ..)
      obtain ⟨b₀, b₁, b₂, hheader⟩ : ∃ b₀ b₁ b₂, leBytes 3 f.len = [b₀, b₁, b₂] :=
        List.length_eq_three.mp (length_leBytes 3 f.len)
      have hof : ofLeBytes [b₀, b₁, b₂] = f.len := by
        have h := ofLeBytes_leBytes 3 f.len
        rw [hheader] at h
        norm_num at h hlt
        omega
      have hstream : (f :: fs).flatMap bytes ++ bs =
          b₀ :: b₁ :: b₂ :: f.tag :: (f.payload ++ (fs.flatMap bytes ++ bs)) := by
        simp [bytes, hheader]
      rw [hstream, outline_cons, if_pos hknown, hof, ← hlen, List.drop_left, List.take_left,
        ih fun g hg => hfs g (List.mem_cons_of_mem _ hg)]
      cases f
      simp_all

/-- What the frames and the rest of a stream that is cut by the tags in `known` amount to when
it is cut by more tags. -/
theorem outline_outline
    (h : ∀ tag, known tag → known' tag) (bs : List UInt8) :
  (outline known' bs).1 = (outline known bs).1 ++ (outline known' (outline known bs).2).1
  := by
  induction bs using headers_induction with
  | short bs hs =>
      have hshort : ∀ known : UInt8 → Bool, outline known bs = ([], bs) :=
        fun _ => outline_of_short hs
      rw [hshort known, hshort known', List.nil_append]
  | header b₀ b₁ b₂ tag rest ih =>
      by_cases hk : known tag
      · rw [outline_cons, outline_cons, if_pos hk, if_pos (h tag hk), ih]
        rfl
      · have hstop : outline known (b₀ :: b₁ :: b₂ :: tag :: rest) =
            ([], b₀ :: b₁ :: b₂ :: tag :: rest) := by
          rw [outline_cons, if_neg hk]
        rw [hstop, List.nil_append]

/-- The tags of the frames of a stream are known. -/
theorem known_of_mem_outline
    {bs : List UInt8} {f : Frame} (hf : f ∈ (outline known bs).1) :
  known f.tag
  := by
  induction bs using headers_induction with
  | short bs hs =>
      rw [outline_of_short hs] at hf
      cases hf
  | header b₀ b₁ b₂ tag rest ih =>
      rw [outline_cons] at hf
      split at hf
      · rcases List.mem_cons.mp hf with rfl | hf
        · assumption
        · apply ih hf
      · cases hf

/-- What is left after the known frames ends the stream. -/
theorem outline_suffix
    (bs : List UInt8) :
  (outline known bs).2 <:+ bs
  := by
  induction bs using headers_induction with
  | short bs hs => exact ⟨[], by rw [outline_of_short hs, List.nil_append]⟩
  | header b₀ b₁ b₂ tag rest ih =>
      rw [outline_cons]
      split
      · apply ih.trans ((List.drop_suffix _ rest).trans _)
        exact ⟨[b₀, b₁, b₂, tag], rfl⟩
      · apply List.suffix_refl

/-! ### The next data -/

/-- Without a next frame that has data, the frames carry none. -/
theorem dataOf_of_nextData_none
    {bs : List UInt8} (h : nextData known isData bs = none) :
  dataOf isData (outline known bs).1 = []
  := by
  induction bs using headers_induction with
  | short bs hs => rw [outline_of_short hs, dataOf_nil]
  | header b₀ b₁ b₂ tag rest ih =>
      rw [nextData_cons] at h
      rw [outline_cons]
      by_cases hk : known tag
      · rw [if_neg (not_not_intro hk)] at h
        rw [if_pos hk, dataOf_cons]
        split at h
        · cases h
        · next hno =>
            rw [ih h, List.append_nil]
            by_cases htag : isData tag
            · have hlen : ofLeBytes [b₀, b₁, b₂] = 0 := by
                by_contra hne
                exact hno ⟨htag, hne⟩
              simp [hlen]
            · simp [htag]
      · rw [if_neg hk, dataOf_nil]

/-- The data of a stream is that of its next frame with data and of what follows; the same is
left after the known frames. -/
theorem dataOf_of_nextData_some
    {bs rest : List UInt8} {len : ℕ} (h : nextData known isData bs = some (len, rest)) :
  dataOf isData (outline known bs).1 =
      rest.take len ++ dataOf isData (outline known (rest.drop len)).1 ∧
    (outline known bs).2 = (outline known (rest.drop len)).2
  := by
  induction bs using headers_induction with
  | short bs hs =>
      rw [nextData_of_short hs] at h
      cases h
  | header b₀ b₁ b₂ tag bs ih =>
      rw [nextData_cons] at h
      by_cases hk : known tag
      · rw [if_neg (not_not_intro hk)] at h
        rw [outline_cons, if_pos hk, dataOf_cons]
        split at h
        · next hyes =>
            obtain ⟨rfl, rfl⟩ : ofLeBytes [b₀, b₁, b₂] = len ∧ bs = rest := by simpa using h
            rw [if_pos hyes.1]
            exact ⟨rfl, rfl⟩
        · next hno =>
            obtain ⟨hdata, hleft⟩ := ih h
            refine ⟨?_, hleft⟩
            rw [hdata]
            by_cases htag : isData tag
            · have hlen : ofLeBytes [b₀, b₁, b₂] = 0 := by
                by_contra hne
                exact hno ⟨htag, hne⟩
              simp [hlen]
            · simp [htag]
      · rw [if_pos hk] at h
        cases h

theorem nextData_pos
    {bs rest : List UInt8} {len : ℕ} (h : nextData known isData bs = some (len, rest)) :
  len ≠ 0 ∧ rest.length + 4 ≤ bs.length
  := by
  induction bs using headers_induction with
  | short bs hs =>
      rw [nextData_of_short hs] at h
      cases h
  | header b₀ b₁ b₂ tag bs ih =>
      rw [nextData_cons] at h
      split at h
      · cases h
      · split at h
        · next hyes =>
            obtain ⟨rfl, rfl⟩ : ofLeBytes [b₀, b₁, b₂] = len ∧ bs = rest := by simpa using h
            exact ⟨hyes.2, le_refl _⟩
        · have h' := ih h
          simp only [List.length_drop, List.length_cons] at h' ⊢
          omega

/-- When every tag is taken for known, the next data of a stream is among the frames whose tags
are known, or comes after them. -/
theorem nextData_outline
    (known isData : UInt8 → Bool) (bs : List UInt8) :
  (∃ len rest, nextData (fun _ => true) isData bs = some (len, rest) ∧
      (outline known (rest.drop len)).2 = (outline known bs).2) ∨
    nextData (fun _ => true) isData bs = nextData (fun _ => true) isData (outline known bs).2
  := by
  induction bs using headers_induction with
  | short bs hs =>
      right
      rw [outline_of_short hs]
  | header b₀ b₁ b₂ tag bs ih =>
      rw [outline_cons]
      by_cases hk : known tag
      · rw [nextData_cons, if_neg (not_not_intro rfl), if_pos hk]
        by_cases hyes : isData tag ∧ ofLeBytes [b₀, b₁, b₂] ≠ 0
        · left
          exact ⟨_, _, if_pos hyes, rfl⟩
        · rw [if_neg hyes]
          apply ih
      · right
        rw [if_neg hk]

/-- There is no next data exactly when no frame with a tag in `isData` announces any. -/
theorem nextData_eq_none_iff
    (bs : List UInt8) :
  nextData known isData bs = none ↔ ∀ f ∈ (outline known bs).1, isData f.tag → f.len = 0
  := by
  induction bs using headers_induction with
  | short bs hs => simp [nextData_of_short hs, outline_of_short hs]
  | header b₀ b₁ b₂ tag rest ih =>
      rw [nextData_cons, outline_cons]
      by_cases hk : known tag
      · rw [if_neg (not_not_intro hk), if_pos hk]
        simp only [List.mem_cons, forall_eq_or_imp]
        by_cases hyes : isData tag ∧ ofLeBytes [b₀, b₁, b₂] ≠ 0
        · simp [hyes]
        · rw [if_neg hyes, ih]
          simp only [not_and, not_not] at hyes
          exact (and_iff_right hyes).symm
      · simp [hk]

end

end Frame
