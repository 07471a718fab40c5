import RsyncRs.Checksum.Md4
import RsyncRs.Protocol.Types

/-!
# Strong checksums

The strong checksum of each checksum type. The digests MD5 and MD4 come from libraries and
are parameters; each has sixteen bytes.
-/

/-- The digests of the libraries. -/
structure Digests where
  /-- MD5. -/
  md5 : List UInt8 → List UInt8
  /-- MD4. -/
  md4 : List UInt8 → List UInt8
  /-- An MD5 digest has sixteen bytes. -/
  length_md5 : ∀ data, (md5 data).length = 16
  /-- An MD4 digest has sixteen bytes. -/
  length_md4 : ∀ data, (md4 data).length = 16

/-- Checksum type of the checksum engine. -/
inductive ChecksumType where
  | md4Archaic
  | md4Busted
  | md4Old
  | md4
  | md5
  | none
deriving DecidableEq, Repr

/-- The checksum type of a protocol. -/
def ChecksumType.forProtocol (version : ℕ) : ChecksumType :=
  if 30 ≤ version then .md5
  else if 27 ≤ version then .md4Old
  else if 21 ≤ version then .md4Busted
  else .md4Archaic

/-- Number of bytes of a checksum. -/
def ChecksumType.digestLen : ChecksumType → ℕ
  | .none => 0
  | _ => 16

/-- The checksum type of the engine for a checksum type of the protocol. Types that are not
implemented fall back to MD5. -/
def csumTypeToChecksumType : CsumType → ChecksumType
  | .none => .none
  | .md4Archaic => .md4Archaic
  | .md4Busted => .md4Busted
  | .md4Old => .md4Old
  | .md4 => .md4
  | _ => .md5

/-- The checksum type of the protocol for a checksum type of the engine. -/
def strongToCsumType : ChecksumType → CsumType
  | .md4Archaic => .md4Archaic
  | .md4Busted => .md4Busted
  | .md4Old => .md4Old
  | .md4 => .md4
  | .md5 => .md5
  | .none => .none

/-- The checksum of a file has sixteen bytes in every protocol. -/
theorem digestLen_forProtocol
    (version : ℕ) :
  (csumTypeToChecksumType (strongToCsumType (ChecksumType.forProtocol version))).digestLen = 16
  := by
  unfold ChecksumType.forProtocol
  split_ifs <;> rfl

/-- Number of bytes of a checksum of a block. -/
def csumSumLen (ct : CsumType) : ℤ :=
  (csumTypeToChecksumType ct).digestLen

/-- The bytes of the seed, none for the seed zero. -/
def seedBytes (seed : ℕ) : List UInt8 :=
  if seed = 0 then [] else leBytes 4 seed

namespace Digests

/-- The strong checksum of `data`. -/
def compute (dig : Digests) (data : List UInt8) (ctype : ChecksumType) (seed : ℕ)
    (properSeedOrder : Bool) : List UInt8 :=
  match ctype with
  | .md5 => dig.md5 (if properSeedOrder then seedBytes seed ++ data else data ++ seedBytes seed)
  | .md4Old => dig.md4 (data ++ seedBytes seed)
  | .md4 => dig.md4 (data ++ seedBytes seed)
  | .md4Busted => md4Classic (data ++ seedBytes seed)
  | .md4Archaic => md4Classic (data ++ seedBytes seed)
  | .none => [0]

/-- A strong checksum has at least the bytes its type announces. -/
theorem digestLen_le_length_compute
    (dig : Digests) (data : List UInt8) (ctype : ChecksumType) (seed : ℕ) (proper : Bool) :
  ctype.digestLen ≤ (dig.compute data ctype seed proper).length
  := by
  cases ctype <;>
    simp [compute, ChecksumType.digestLen, dig.length_md5, dig.length_md4, length_md4Classic]

end Digests

/-- The digests of the libraries on a block of zeros. -/
def digestsOfZeros : Digests where
  md5 data :=
    if data = List.replicate 700 0 then
      [0x05, 0x57, 0x2f, 0x82, 0xde, 0x4f, 0x01, 0xb1,
       0xe6, 0xf2, 0x80, 0xb0, 0xb6, 0x2a, 0x83, 0x34]
    else
      List.replicate 16 0
  md4 data :=
    if data = List.replicate 700 0 then
      [0xd0, 0x46, 0x79, 0x03, 0x5e, 0x9f, 0xd0, 0x8f,
       0x3b, 0xd3, 0x48, 0x6c, 0x8b, 0x42, 0x9b, 0xd2]
    else
      List.replicate 16 0
  length_md5 data := by
    split <;> rfl
  length_md4 data := by
    split <;> rfl
