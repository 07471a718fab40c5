import Mathlib.Data.List.Basic
import Mathlib.Data.Nat.Init
import Mathlib.Data.Nat.Notation

/-!
# Streams of raw deflate

A compressor and a decompressor of raw deflate, as a library offers them: each call takes
some of its input and puts out some bytes. `Flate` is what they do on single calls, and
`Flate.Laws` is what their documentation says about streams.
-/

/-- What a compressor is to do with the input it holds back. -/
inductive FlushCompress where
  /-- Hold back as much as it likes. -/
  | none
  /-- Put out everything, up to the boundary of a byte. -/
  | sync
deriving DecidableEq, Repr

/-- What a decompressor is to do with the output it holds back. -/
inductive FlushDecompress where
  | none
  | sync
deriving DecidableEq, Repr

/-- What one call did: how much of the input it took, what it put out, whether it could do
nothing, and the state after it. -/
structure FlateStep (S : Type) where
  /-- Number of bytes taken. -/
  consumed : ℕ
  /-- The bytes put out. -/
  out : List UInt8
  /-- There was nothing to do, or no room to do it. -/
  bufError : Bool
  /-- The state after the call. -/
  state : S

/-- A compressor and a decompressor. A call has the state, the input, and the room for
output. -/
structure Flate where
  /-- States of a compressor. -/
  Compress : Type
  /-- States of a decompressor. -/
  Decompress : Type
  /-- A fresh compressor. -/
  newCompress : Compress
  /-- A fresh decompressor. -/
  newDecompress : Decompress
  /-- One call of a compressor. -/
  compress : Compress → List UInt8 → ℕ → FlushCompress → Except String (FlateStep Compress)
  /-- One call of a decompressor. -/
  decompress : Decompress → List UInt8 → ℕ → FlushDecompress →
    Except String (FlateStep Decompress)

/-- The end of every synchronized flush: the lengths of an empty stored block. -/
def syncTrailer : List UInt8 :=
  [0x00, 0x00, 0xff, 0xff]

/-- The header of a stored block of `n` bytes that is not the last block. -/
def storedHeader (n : ℕ) : List UInt8 :=
  [0x00, UInt8.ofNat (n % 256), UInt8.ofNat (n / 256 % 256),
    ~~~UInt8.ofNat (n % 256), ~~~UInt8.ofNat (n / 256 % 256)]

/-- `body` and the trailer after it continue every stream for `hist` that is at the boundary
of a block to a stream for `hist ++ cur`; `body` alone gives the data already. -/
def IsSegment (plain : List UInt8 → Option (List UInt8)) (Boundary : List UInt8 → Prop)
    (hist cur body : List UInt8) : Prop :=
  ∀ z, Boundary z → plain z = some hist →
    plain (z ++ body) = some (hist ++ cur) ∧
    plain (z ++ body ++ syncTrailer) = some (hist ++ cur) ∧
    Boundary (z ++ body ++ syncTrailer)

/-- What the documentation of a library says about streams. -/
structure Flate.Laws (F : Flate) where
  /-- The data that a stream gives so far, if it is well formed so far. -/
  plain : List UInt8 → Option (List UInt8)
  /-- The stream ends at a byte that ends a block. -/
  Boundary : List UInt8 → Prop
  /-- The compressor has flushed `hist`; since then it took `cur` and put out `emitted`. -/
  Flushed : F.Compress → (hist cur emitted : List UInt8) → Prop
  /-- The decompressor has taken the stream `input` and put out `output`. -/
  Fed : F.Decompress → (input output : List UInt8) → Prop
  /-- How much is put out, at most, for a number of bytes taken. -/
  bound : ℕ → ℕ
  plain_nil : plain [] = some []
  boundary_nil : Boundary []
  /-- A stream goes on with the data it has given. -/
  plain_append : ∀ {z x q}, plain (z ++ x) = some q → ∃ p, plain z = some p ∧ p <+: q
  /-- The header of a stored block gives no data. -/
  stored_header : ∀ {z p n}, Boundary z → plain z = some p → n ≤ 65535 →
    plain (z ++ storedHeader n) = some p
  /-- A stored block gives its bytes. -/
  stored : ∀ {z p bs}, Boundary z → plain z = some p → bs.length ≤ 65535 →
    plain (z ++ storedHeader bs.length ++ bs) = some (p ++ bs) ∧
      Boundary (z ++ storedHeader bs.length ++ bs)
  flushed_new : Flushed F.newCompress [] [] []
  /-- Without a flush, the compressor takes input or puts out bytes. -/
  compress_none : ∀ {c hist cur emitted x cap}, Flushed c hist cur emitted → x ≠ [] → 0 < cap →
    ∃ r, F.compress c x cap .none = .ok r ∧ r.consumed ≤ x.length ∧ r.out.length ≤ cap ∧
      (0 < r.consumed ∨ r.out ≠ []) ∧
      Flushed r.state hist (cur ++ x.take r.consumed) (emitted ++ r.out)
  emitted_le : ∀ {c hist cur emitted}, Flushed c hist cur emitted →
    emitted.length ≤ bound cur.length
  /-- A synchronized flush with enough room completes. It ends what was put out since the
  last one as a segment for what was taken. -/
  compress_sync : ∀ {c hist cur emitted cap}, Flushed c hist cur emitted →
    cur.length + 256 ≤ cap →
    ∃ r, F.compress c [] cap .sync = .ok r ∧ Flushed r.state (hist ++ cur) [] [] ∧
      (cur ≠ [] → ∃ body, emitted ++ r.out = body ++ syncTrailer ∧
        IsSegment plain Boundary hist cur body)
  fed_new : Fed F.newDecompress [] []
  fed_plain : ∀ {d z p}, Fed d z p → ∃ q, plain z = some q ∧ p <+: q
  /-- The decompressor goes on until the room for output is filled, or the input is taken
  and all its data are put out. -/
  decompress : ∀ {d z p x q} (cap flush), Fed d z p → plain (z ++ x) = some q →
    ∃ r, F.decompress d x cap flush = .ok r ∧ r.consumed ≤ x.length ∧ r.out.length ≤ cap ∧
      Fed r.state (z ++ x.take r.consumed) (p ++ r.out) ∧
      (r.out.length = cap ∨ r.consumed = x.length ∧ p ++ r.out = q)

namespace Flate.Laws

variable {F : Flate} (L : F.Laws)

/-- To show a property of a compressor that takes all of its input without a flush, show it
when there is no input left, and show that a call establishes it when it holds after the
call. -/
theorem takes_all
    (cap : ℕ) (hcap : 0 < cap) {hist : List UInt8}
    {motive : F.Compress → List UInt8 → List UInt8 → List UInt8 → Prop}
    (nil : ∀ c cur out, L.Flushed c hist cur out → motive c [] cur out)
    (call : ∀ c x cur out r, x ≠ [] → F.compress c x cap .none = .ok r →
      (0 < r.consumed ∨ r.out ≠ []) →
      motive r.state (x.drop r.consumed) (cur ++ x.take r.consumed) (out ++ r.out) →
      motive c x cur out)
    {c : F.Compress} {x cur out : List UInt8} (h : L.Flushed c hist cur out) :
  motive c x cur out
  := by
  -- by the input left, and then by what may still be put out for the input taken
  induction hn : x.length using Nat.strong_induction_on generalizing c cur out x with
  | h n ihn =>
      induction hm : L.bound cur.length - out.length using Nat.strong_induction_on
          generalizing c out with
      | h m ihm =>
          by_cases he : x = []
          · subst he
            apply nil c cur out h
          · obtain ⟨r, hr, hle, -, hprog, hflushed⟩ := L.compress_none h he hcap
            apply call c x cur out r he hr hprog
            obtain hz | hp := Nat.eq_zero_or_pos r.consumed
            · have hout : 0 < r.out.length := by
                rcases hprog with hprog | hprog
                · omega
                · apply List.length_pos_iff.mpr hprog
              rw [hz, List.take_zero, List.append_nil] at hflushed ⊢
              have hbound := L.emitted_le hflushed
              rw [List.length_append] at hbound
              rw [List.drop_zero]
              apply ihm _ _ hflushed rfl
              rw [List.length_append]
              omega
            · have hlt : (x.drop r.consumed).length < n := by
                rw [List.length_drop]
                omega
              apply ihn _ hlt hflushed rfl

/-- With room for all the data that are left, the decompressor takes its input and puts them
out. -/
theorem decompress_all
    {d : F.Decompress} {z x p q : List UInt8} (cap : ℕ) (flush : FlushDecompress)
    (h : L.Fed d z p) (hq : L.plain (z ++ x) = some q) (hcap : q.length < p.length + cap) :
  ∃ r, F.decompress d x cap flush = .ok r ∧ r.consumed = x.length ∧ p ++ r.out = q ∧
    L.Fed r.state (z ++ x) q
  := by
  obtain ⟨r, hr, hle, -, hfed, hend⟩ := L.decompress cap flush h hq
  use r, hr
  rcases hend with hfull | ⟨hc, ho⟩
  · -- the room is not filled, as less than that is left
    exfalso
    obtain ⟨p', hp', hpre⟩ := L.fed_plain hfed
    rw [← List.take_append_drop r.consumed x, ← List.append_assoc] at hq
    obtain ⟨p'', hp'', hpre'⟩ := L.plain_append hq
    rw [hp'] at hp''
    cases hp''
    have hlen := (hpre.trans hpre').length_le
    rw [List.length_append] at hlen
    omega
  · rw [hc, List.take_length, ho] at hfed
    apply And.intro hc ⟨ho, hfed⟩

/-- The decompressor has put out all its data, and the stream ends at the boundary of a
block. -/
def Synced (d : F.Decompress) (hist : List UInt8) : Prop :=
  ∃ z, L.Fed d z hist ∧ L.plain z = some hist ∧ L.Boundary z

theorem synced_new :
  L.Synced F.newDecompress []
  := ⟨[], L.fed_new, L.plain_nil, L.boundary_nil⟩

end Flate.Laws
