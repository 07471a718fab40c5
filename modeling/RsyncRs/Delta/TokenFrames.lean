import RsyncRs.Delta.DeflateToken

/-!
# Frames of a compressed stream

A compressed stream consists of frames. A frame of blocks gives the index of its first block, and
when it is a run it also counts the blocks that follow. An index may be relative to the last block
before the frame.
-/

/-- The index that a frame of blocks starts with. -/
inductive FrameIndex where
  /-- So far from the last block. -/
  | relative (delta : ℕ)
  /-- The index itself. -/
  | absolute (idx : ℤ)
deriving DecidableEq, Repr

/-- A frame of a compressed stream. -/
inductive TokenFrame where
  /-- End of the file. -/
  | eof
  /-- Compressed data. -/
  | deflated (data : List UInt8)
  /-- Blocks, with the count field of a run. -/
  | blocks (idx : FrameIndex) (count : Option ℕ)
deriving DecidableEq, Repr

/-- The bytes are the count field that a frame has when the lowest bit of `f` is set. -/
inductive IsCount (f : UInt8) : List UInt8 → Option ℕ → Prop where
  | none (hf : f &&& 1 = 0) : IsCount f [] none
  | some {bs : List UInt8} (hf : f &&& 1 ≠ 0) (hlen : bs.length = 2) :
      IsCount f bs (some (ofLeBytes bs))

/-- The bytes are a frame. -/
inductive IsFrame : List UInt8 → TokenFrame → Prop where
  | eof : IsFrame [endFlag] .eof
  | deflated {flag lo : UInt8} {data : List UInt8} (hflag : flag &&& 0xC0 = deflatedData)
      (hlen : data.length = ofLeBytes [lo, flag &&& 0x3f]) :
      IsFrame (flag :: lo :: data) (.deflated data)
  | relative {flag : UInt8} {bs : List UInt8} {count : Option ℕ} (hflag : flag &&& tokenRel ≠ 0)
      (hcount : IsCount (flag >>> 6) bs count) :
      IsFrame (flag :: bs) (.blocks (.relative (flag &&& 0x3f).toNat) count)
  | absolute {flag : UInt8} {idx bs : List UInt8} {count : Option ℕ} (hend : flag ≠ endFlag)
      (hdata : flag &&& 0xC0 ≠ deflatedData) (hflag : flag &&& tokenRel = 0)
      (hlen : idx.length = 4) (hidx : 0 ≤ wrapI32 (ofLeBytes idx))
      (hcount : IsCount flag bs count) :
      IsFrame (flag :: (idx ++ bs)) (.blocks (.absolute (wrapI32 (ofLeBytes idx))) count)

/-- The bytes are frames one after the other. -/
inductive IsFrames : List UInt8 → List TokenFrame → Prop where
  | nil : IsFrames [] []
  | snoc {pre bs : List UInt8} {fs : List TokenFrame} {f : TokenFrame} (h : IsFrames pre fs)
      (hf : IsFrame bs f) : IsFrames (pre ++ bs) (fs ++ [f])

/-- The first block of a frame, when `last` is the last block before it. -/
def FrameIndex.start (last : ℤ) : FrameIndex → ℤ
  | .relative delta => last + delta
  | .absolute idx => idx

namespace TokenFrame

/-- The blocks of a frame: the first one, and as many more as the frame counts. -/
def blockList (last : ℤ) : TokenFrame → List ℤ
  | .blocks idx count => (List.range (1 + count.getD 0)).map fun i : ℕ => idx.start last + i
  | _ => []

/-- How many blocks a frame has. -/
def size : TokenFrame → ℕ
  | .blocks _ count => 1 + count.getD 0
  | _ => 0

/-- The last block after a frame. -/
def next (last : ℤ) : TokenFrame → ℤ
  | .blocks idx count => idx.start last + count.getD 0
  | .deflated _ => last
  | .eof => 0

/-- The frame counts at least one block when it is a run, and its blocks fit into 32 bits. -/
def Sound (last : ℤ) : TokenFrame → Prop
  | .blocks idx count => count ≠ some 0 ∧ idx.start last + count.getD 0 < 2147483648
  | _ => True

end TokenFrame

/-- The last block after frames. -/
def lastBlock (fs : List TokenFrame) : ℤ :=
  fs.foldl TokenFrame.next 0

/-- The blocks of frames in order, when `last` is the last block before them. -/
def framesBlocks : ℤ → List TokenFrame → List ℤ
  | _, [] => []
  | last, f :: fs => f.blockList last ++ framesBlocks (f.next last) fs

/-- Every frame that the bytes start with is sound where it stands. -/
def SoundStream (bs : List UInt8) : Prop :=
  ∀ fs f pre rest, IsFrames pre (fs ++ [f]) → bs = pre ++ rest → f.Sound (lastBlock fs)

theorem framesBlocks_append
    (last : ℤ) (fs fs' : List TokenFrame) :
  framesBlocks last (fs ++ fs') =
    framesBlocks last fs ++ framesBlocks (fs.foldl TokenFrame.next last) fs'
  := by
  induction fs generalizing last with
  | nil => rfl
  | cons f fs ih => rw [List.cons_append, framesBlocks, ih, framesBlocks, List.append_assoc]; rfl

/-- A frame behind others adds its blocks. -/
theorem framesBlocks_snoc
    (fs : List TokenFrame) (f : TokenFrame) :
  framesBlocks 0 (fs ++ [f]) = framesBlocks 0 fs ++ f.blockList (lastBlock fs)
  := by
  rw [framesBlocks_append, framesBlocks, framesBlocks, List.append_nil]
  rfl

theorem lastBlock_snoc
    (fs : List TokenFrame) (f : TokenFrame) :
  lastBlock (fs ++ [f]) = f.next (lastBlock fs)
  := by
  rw [lastBlock, List.foldl_append]
  rfl

theorem length_framesBlocks
    (last : ℤ) (fs : List TokenFrame) :
  (framesBlocks last fs).length = (fs.map TokenFrame.size).sum
  := by
  induction fs generalizing last with
  | nil => rfl
  | cons f fs ih =>
      rw [framesBlocks, List.length_append, ih, List.map_cons, List.sum_cons]
      cases f <;> simp [TokenFrame.blockList, TokenFrame.size]

/-- The blocks of a sound frame are numbers of 32 bits that are not negative. -/
theorem TokenFrame.Sound.range
    {f : TokenFrame} {last : ℤ} (h : f.Sound last) (hlast : 0 ≤ last) (hlast' : last < 2147483648)
    {bs : List UInt8} (hf : IsFrame bs f) :
  (∀ idx ∈ f.blockList last, 0 ≤ idx) ∧ 0 ≤ f.next last ∧ f.next last < 2147483648
  := by
  cases hf with
  | eof =>
      have h0 : (0 : ℤ) < 2147483648 := by decide
      exact ⟨List.forall_mem_nil _, le_refl 0, h0⟩
  | deflated => exact ⟨List.forall_mem_nil _, hlast, hlast'⟩
  | @relative flag bs count hflag hcount =>
      obtain ⟨-, hlt⟩ := h
      simp only [FrameIndex.start] at hlt
      refine ⟨?_, ?_, hlt⟩
      · intro idx hidx
        obtain ⟨i, -, rfl⟩ := List.mem_map.mp hidx
        simp only [FrameIndex.start]
        omega
      · simp only [TokenFrame.next, FrameIndex.start]
        omega
  | @absolute flag idx bs count hend hdata hflag hlen hidx hcount =>
      obtain ⟨-, hlt⟩ := h
      refine ⟨?_, ?_, hlt⟩
      · intro i hi
        obtain ⟨j, -, rfl⟩ := List.mem_map.mp hi
        simp only [FrameIndex.start]
        omega
      · simp only [TokenFrame.next, FrameIndex.start]
        omega

/-- A frame starts with an index that is not negative, and its count field has sixteen bits. -/
theorem IsFrame.run_range
    {part : List UInt8} {idx : FrameIndex} {n : ℕ} {last : ℤ}
    (h : IsFrame part (.blocks idx (some n))) (hlast : 0 ≤ last) :
  0 ≤ idx.start last ∧ n < 65536
  := by
  have hcount : ∀ f bs, IsCount f bs (some n) → n < 65536 := by
    intro f bs hcount
    cases hcount with
    | some hf hlen =>
        have hsmall := ofLeBytes_lt bs
        rw [hlen] at hsmall
        omega
  cases h with
  | relative hflag hc =>
      refine ⟨?_, hcount _ _ hc⟩
      simp only [FrameIndex.start]
      omega
  | absolute hend hdata hflag hlen hidx hc => exact ⟨hidx, hcount _ _ hc⟩
