import Mathlib.Data.List.TakeWhile
import RsyncRs.Bytes

/-!
# Paths

Paths are the bytes of a string. The operations on them are those of the standard library.
-/

/-- The bytes of a path. -/
abbrev FsPath := List UInt8

/-- The byte that separates the components of a path. -/
def sep : UInt8 := 0x2f

/-- The byte before an extension. -/
def dot : UInt8 := 0x2e

namespace FsPath

/-- The path starts at the root. -/
def isAbsolute (p : FsPath) : Bool :=
  p.head? = some sep

/-- The path `p` as seen from `base`. -/
def join (base p : FsPath) : FsPath :=
  if isAbsolute p then p
  else if base = [] ∨ base.getLast? = some sep then base ++ p
  else base ++ sep :: p

/-! ### Components -/

/-- The path starts with the component of the current directory. -/
def includesCurDir (p : FsPath) : Bool :=
  p = [dot] ∨ p.take 2 = [dot, sep]

/-- Number of bytes before the components that have names. -/
def lenBeforeBody (p : FsPath) : ℕ :=
  if isAbsolute p ∨ includesCurDir p then 1 else 0

/-- The bytes after the last separator. -/
def lastPart (p : FsPath) : FsPath :=
  (p.reverse.takeWhile (· ≠ sep)).reverse

/-- The bytes up to the last separator, without it. -/
def beforeLastPart (p : FsPath) : FsPath :=
  ((p.reverse.dropWhile (· ≠ sep)).drop 1).reverse

theorem length_beforeLastPart_lt
    {p : FsPath} (h : p ≠ []) :
  (beforeLastPart p).length < p.length
  := by
  have hpos : 0 < p.length := List.length_pos_iff.mpr h
  have hle := (List.dropWhile_sublist (l := p.reverse) (· ≠ sep)).length_le
  rw [List.length_reverse] at hle
  unfold beforeLastPart
  rw [List.length_reverse, List.length_drop]
  by_cases hd : (p.reverse.dropWhile (· ≠ sep)).length = 0
  · rw [hd]
    omega
  · omega

/-- A path with a separator is what comes before its last one and what comes after. -/
theorem beforeLastPart_append
    {p : FsPath} (h : sep ∈ p) :
  beforeLastPart p ++ sep :: lastPart p = p
  := by
  have hmem : sep ∈ p.reverse := List.mem_reverse.mpr h
  have hsplit := List.takeWhile_append_dropWhile (p := (· ≠ sep)) (l := p.reverse)
  cases hd : p.reverse.dropWhile (· ≠ sep) with
  | nil =>
      have hall := List.dropWhile_eq_nil_iff.mp hd sep hmem
      simp at hall
  | cons c t =>
      have hc : c = sep := by
        have hne : p.reverse.dropWhile (· ≠ sep) ≠ [] := by
          rw [hd]
          apply List.cons_ne_nil
        have hhead := List.head_dropWhile_not (· ≠ sep) hne
        simpa only [hd, List.head_cons, decide_eq_false_iff_not, not_not] using hhead
      rw [hd, hc] at hsplit
      rw [beforeLastPart, lastPart, hd, List.drop_one, List.tail_cons]
      have hrev := congrArg List.reverse hsplit
      simpa using hrev

theorem sep_not_mem_lastPart
    (p : FsPath) :
  sep ∉ lastPart p
  := by
  intro h
  have h' := List.mem_takeWhile_imp (List.mem_reverse.mp h)
  simp at h'

/-- The body of a path without the components at its end that name nothing. -/
def trimBody (body : FsPath) : FsPath :=
  if body = [] then
    body
  else if lastPart body = [] ∨ lastPart body = [dot] then
    trimBody (beforeLastPart body)
  else
    body
termination_by body.length
decreasing_by
  apply length_beforeLastPart_lt ‹_›

/-- The path without the components at its end that name nothing. -/
def trimRight (p : FsPath) : FsPath :=
  p.take (lenBeforeBody p) ++ trimBody (p.drop (lenBeforeBody p))

/-- The path of the parent directory. -/
def parent (p : FsPath) : Option FsPath :=
  let lead := p.take (lenBeforeBody p)
  let body := trimBody (p.drop (lenBeforeBody p))
  if body ≠ [] then
    some (lead ++ trimBody (beforeLastPart body))
  else if includesCurDir p then
    some []
  else
    none

/-- The last component, if it is a name. -/
def fileName (p : FsPath) : Option FsPath :=
  let body := trimBody (p.drop (lenBeforeBody p))
  if body = [] ∨ lastPart body = [dot, dot] then none else some (lastPart body)

/-- A component of a path. -/
inductive Component where
  | root
  | cur
  | parent
  | normal (name : FsPath)
deriving DecidableEq, Repr

/-- The components of a path. Two paths are equal when their components are. -/
def components (p : FsPath) : List Component :=
  (if isAbsolute p then [.root] else if includesCurDir p then [.cur] else []) ++
    (p.splitOn sep).filterMap fun part =>
      if part = [] ∨ part = [dot] then none
      else if part = [dot, dot] then some .parent
      else some (.normal part)

/-- The components of a path after those of the path `base`, if it starts with these. -/
def stripPrefix (p base : FsPath) : Option (List Component) :=
  if components base <+: components p then
    some ((components p).drop (components base).length)
  else
    none

/-! ### Extensions -/

/-- A file name without its extension. -/
def stemOf (name : FsPath) : FsPath :=
  let before := ((name.reverse.dropWhile (· ≠ dot)).drop 1).reverse
  if dot ∉ name ∨ before = [] then name else before

/-- The extension of the last component. -/
def extension (p : FsPath) : Option FsPath :=
  match fileName p with
  | some name =>
    if stemOf name = name then none else some (name.drop ((stemOf name).length + 1))
  | none => none

/-- The path with another extension on its last component, where that is a name. -/
def setExtension (p ext : FsPath) : FsPath :=
  match fileName p with
  | some name =>
    (trimRight p).take ((trimRight p).length - name.length + (stemOf name).length) ++
      (if ext = [] then [] else dot :: ext)
  | none => p

/-- The path with another extension. -/
def withExtension (p ext : FsPath) : FsPath :=
  match extension p with
  | some old => setExtension (p.take (p.length - old.length)) ext
  | none => setExtension p ext

end FsPath
