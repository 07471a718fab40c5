import RsyncRs.Options.ServerArgs
import RsyncRs.Options.ServerFlags

/-!
# Arguments that are parsed

What the server has after it parsed some arguments: a flag when one of the arguments sets it,
and the value of the last argument that has one.
-/

/-! ### Flags that are compared -/

/-- A flag that both sides have, and what sets it on the server. -/
structure ComparedFlag where
  /-- The flag of the client. -/
  client : Options → Bool
  /-- The flag of the server. -/
  server : ServerFlags → Bool
  /-- The letters that set it. -/
  letters : List Char
  /-- The long options that set it. -/
  names : List String

/-- The long options for deletion. -/
def deleteNames : List String :=
  ["delete", "delete-before", "delete-during", "delete-after"]

/-- The flags that are compared. -/
def comparedFlags : List ComparedFlag :=
  [{ client := fun opts =>
       opts.delete || opts.deleteBefore || opts.deleteDuring || opts.deleteAfter
     server := (·.delete), letters := [], names := deleteNames },
   { client := (·.ignoreExisting), server := (·.ignoreExisting), letters := [],
     names := ["ignore-existing"] },
   { client := (·.pruneEmptyDirs), server := (·.pruneEmptyDirs), letters := ['m'],
     names := ["prune-empty-dirs"] },
   { client := (·.owner), server := (·.owner), letters := ['o', 'a'], names := [] },
   { client := (·.group), server := (·.group), letters := ['g', 'a'], names := [] },
   { client := (·.times), server := (·.times), letters := ['t', 'a'], names := [] },
   { client := (·.devices), server := (·.devices), letters := ['D', 'a'], names := [] },
   { client := (·.recursive), server := (·.recursive), letters := ['r', 'a'], names := [] },
   { client := (·.checksum), server := (·.checksum), letters := ['c'], names := [] },
   { client := (·.compress), server := (·.compress), letters := ['z'], names := [] },
   { client := (·.hardLinks), server := (·.hardLinks), letters := ['H'], names := [] },
   { client := (·.update), server := (·.update), letters := ['u'], names := [] }]

/-! ### What an argument sets -/

namespace ServerFlags

/-- The letters of an argument that is a bundle, as far as they count. -/
def bundleLetters (arg : Str) : List Char :=
  match arg with
  | '-' :: '-' :: _ => []
  | '-' :: c :: letters => ((Str.bytes (c :: letters)).map Char.ofUInt8).takeWhile (· ≠ 'e')
  | _ => []

/-- The argument sets a flag that the given letters and long options set. -/
def Sets (letters : List Char) (names : List String) (arg : Str) : Prop :=
  (∃ c ∈ letters, c ∈ bundleLetters arg) ∨ ∃ name ∈ names, arg = '-' :: '-' :: name.toList

instance (letters : List Char) (names : List String) (arg : Str) :
    Decidable (Sets letters names arg) :=
  decidable_of_iff
    ((letters.any fun c => c ∈ bundleLetters arg) = true ∨
      (names.any fun name => arg = '-' :: '-' :: name.toList) = true)
    (by simp [Sets])

/-- The argument is a path. -/
def isPath (arg : Str) : Bool :=
  match arg with
  | '-' :: _ :: _ => false
  | _ => true

/-- The value of a long option in an argument. -/
def valueOf (name : String) (arg : Str) : Option Str :=
  match arg with
  | '-' :: '-' :: rest =>
    if name.toList ++ ['='] <+: rest then some (rest.drop (name.toList.length + 1)) else none
  | _ => none

/-- The value of the last argument with a long option. -/
def lastValue (name : String) (args : List Str) : Option Str :=
  (args.filterMap (valueOf name)).getLast?

/-- An argument is a long option, a bundle, or a path. -/
theorem arg_cases
    {motive : Str → Prop} (long : ∀ rest, motive ('-' :: '-' :: rest))
    (bundle : ∀ c letters, c ≠ '-' → motive ('-' :: c :: letters))
    (path : ∀ arg, isPath arg = true → motive arg) (arg : Str) :
  motive arg
  := by
  match arg with
  | [] => apply path _ rfl
  | [c] => apply path _ (by simp [isPath])
  | c :: d :: rest =>
    by_cases hc : c = '-'
    · subst hc
      by_cases hd : d = '-'
      · subst hd
        apply long
      · apply bundle d rest hd
    · apply path
      simp [isPath, hc]

variable {scaled : Str → ℤ → Option ℤ}

theorem takeArg_bundle
    (s : ServerFlags × List Str) {c : Char} (hc : c ≠ '-') (letters : Str) :
  takeArg scaled s ('-' :: c :: letters) = (s.1.merge (parse ('-' :: c :: letters)), s.2)
  := by
  rw [takeArg]
  intro h
  apply hc h

theorem takeArg_path
    (s : ServerFlags × List Str) {arg : Str} (h : isPath arg = true) :
  takeArg scaled s arg = (s.1, s.2 ++ [arg])
  := by
  unfold takeArg
  split
  · cases h
  · cases h
  · rfl

theorem bundleLetters_bundle
    {c : Char} (hc : c ≠ '-') (letters : Str) :
  bundleLetters ('-' :: c :: letters) =
    ((Str.bytes (c :: letters)).map Char.ofUInt8).takeWhile (· ≠ 'e')
  := by
  rw [bundleLetters]
  intro h
  apply hc h

theorem bundleLetters_path
    {arg : Str} (h : isPath arg = true) :
  bundleLetters arg = []
  := by
  unfold bundleLetters
  split
  · rfl
  · cases h
  · rfl

theorem valueOf_bundle
    {name : String} {c : Char} (hc : c ≠ '-') (letters : Str) :
  valueOf name ('-' :: c :: letters) = none
  := by
  rw [valueOf]
  intro rest h
  cases h
  apply hc rfl

theorem valueOf_path
    {name : String} {arg : Str} (h : isPath arg = true) :
  valueOf name arg = none
  := by
  unfold valueOf
  split
  · cases h
  · rfl

theorem not_sets_path
    {letters : List Char} {names : List String} {arg : Str} (h : isPath arg = true) :
  ¬ Sets letters names arg
  := by
  rintro (⟨c, -, hc⟩ | ⟨name, -, rfl⟩)
  · rw [bundleLetters_path h] at hc
    cases hc
  · cases h

/-! ### What a letter and a long option set -/

/-- The shortcut for archives sets the flags that it stands for. -/
theorem expandArchive_flags
    (flags : ServerFlags) :
  flags.expandArchive.owner = (flags.owner || flags.archive) ∧
    flags.expandArchive.group = (flags.group || flags.archive) ∧
    flags.expandArchive.times = (flags.times || flags.archive) ∧
    flags.expandArchive.devices = (flags.devices || flags.archive) ∧
    flags.expandArchive.recursive = (flags.recursive || flags.archive) ∧
    flags.expandArchive.checksum = flags.checksum ∧
    flags.expandArchive.compress = flags.compress ∧
    flags.expandArchive.hardLinks = flags.hardLinks ∧
    flags.expandArchive.update = flags.update ∧
    flags.expandArchive.pruneEmptyDirs = flags.pruneEmptyDirs ∧
    flags.expandArchive.delete = flags.delete ∧
    flags.expandArchive.ignoreExisting = flags.ignoreExisting
  := by
  unfold expandArchive
  split <;> simp_all

/-- A letter sets the flag of its own. -/
theorem setLetter_flags
    (flags : ServerFlags) (c : Char) :
  (flags.setLetter c).archive = (flags.archive || c == 'a') ∧
    (flags.setLetter c).owner = (flags.owner || c == 'o') ∧
    (flags.setLetter c).group = (flags.group || c == 'g') ∧
    (flags.setLetter c).times = (flags.times || c == 't') ∧
    (flags.setLetter c).devices = (flags.devices || c == 'D') ∧
    (flags.setLetter c).recursive = (flags.recursive || c == 'r') ∧
    (flags.setLetter c).checksum = (flags.checksum || c == 'c') ∧
    (flags.setLetter c).compress = (flags.compress || c == 'z') ∧
    (flags.setLetter c).hardLinks = (flags.hardLinks || c == 'H') ∧
    (flags.setLetter c).update = (flags.update || c == 'u') ∧
    (flags.setLetter c).pruneEmptyDirs = (flags.pruneEmptyDirs || c == 'm') ∧
    (flags.setLetter c).delete = flags.delete ∧
    (flags.setLetter c).ignoreExisting = flags.ignoreExisting
  := by
  unfold setLetter
  split <;> simp_all

/-- A long option sets the flag of its own, or a value. -/
theorem setLong_flags
    (scaled : Str → ℤ → Option ℤ) (flags : ServerFlags) (rest : Str) :
  ∃ linkDest filesFrom maxSize minSize, flags.setLong scaled rest =
    { flags with
      delete := flags.delete || decide (∃ name ∈ deleteNames, rest = name.toList)
      ignoreExisting := flags.ignoreExisting || decide (rest = "ignore-existing".toList)
      pruneEmptyDirs := flags.pruneEmptyDirs || decide (rest = "prune-empty-dirs".toList)
      linkDest := linkDest
      filesFrom := filesFrom
      maxSize := maxSize
      minSize := minSize }
  := by
  have hdelete : (∃ name ∈ deleteNames, rest = name.toList) ↔
      rest = "delete".toList ∨ rest = "delete-before".toList ∨
        rest = "delete-during".toList ∨ rest = "delete-after".toList := by
    simp [deleteNames]
  simp only [hdelete]
  unfold setLong
  by_cases hids : rest = "numeric-ids".toList
  · subst hids
    refine ⟨flags.linkDest, flags.filesFrom, flags.maxSize, flags.minSize, ?_⟩
    simp
  rw [if_neg hids]
  by_cases hdel : rest = "delete".toList ∨ rest = "delete-before".toList ∨
      rest = "delete-during".toList ∨ rest = "delete-after".toList
  · refine ⟨flags.linkDest, flags.filesFrom, flags.maxSize, flags.minSize, ?_⟩
    rw [if_pos hdel, decide_eq_true hdel]
    obtain rfl | rfl | rfl | rfl := hdel <;> simp
  rw [if_neg hdel, decide_eq_false hdel, Bool.or_false]
  by_cases hignore : rest = "ignore-existing".toList
  · subst hignore
    refine ⟨flags.linkDest, flags.filesFrom, flags.maxSize, flags.minSize, ?_⟩
    simp
  rw [if_neg hignore, decide_eq_false hignore, Bool.or_false]
  by_cases hprune : rest = "prune-empty-dirs".toList
  · subst hprune
    refine ⟨flags.linkDest, flags.filesFrom, flags.maxSize, flags.minSize, ?_⟩
    simp
  rw [if_neg hprune, decide_eq_false hprune, Bool.or_false]
  -- the options that are left have a value
  split
  · exact ⟨_, _, _, _, rfl⟩
  · split
    · exact ⟨_, _, _, _, rfl⟩
    · split
      · exact ⟨_, _, _, _, rfl⟩
      · split
        · exact ⟨_, _, _, _, rfl⟩
        · exact ⟨_, _, _, _, rfl⟩

/-- No bundle sets the flag for deletion. -/
theorem delete_parse
    (arg : Str) :
  (parse arg).delete = false
  := by
  have hset : ∀ (bytes : List UInt8) (flags : ServerFlags),
      (flags.setLetters bytes).delete = flags.delete := by
    intro bytes
    induction bytes with
    | nil => simp [setLetters]
    | cons b bytes ih =>
        intro flags
        rw [setLetters]
        split
        · rfl
        · obtain ⟨-, -, -, -, -, -, -, -, -, -, -, hletter, -⟩ :=
            setLetter_flags flags (Char.ofUInt8 b)
          rw [ih, hletter]
  unfold parse
  split
  · obtain ⟨-, -, -, -, -, -, -, -, -, -, hexpand, -⟩ := expandArchive_flags
      (setLetters {} (Str.bytes ‹_›))
    rw [hexpand, hset]
  · rfl

/-! ### Flags that arguments set -/

/-- The letters and the long options set the flag `p`, and nothing else does. -/
structure IsSetBy (scaled : Str → ℤ → Option ℤ) (p : ServerFlags → Bool) (letters : List Char)
    (names : List String) : Prop where
  default : p {} = false
  archive : ∀ flags : ServerFlags,
    p flags.expandArchive = (p flags || (flags.archive && decide ('a' ∈ letters)))
  merge : ∀ flags f : ServerFlags, f.delete = false → p (flags.merge f) = (p flags || p f)
  letter : ∀ (flags : ServerFlags) c,
    p (flags.setLetter c).expandArchive = (p flags.expandArchive || decide (c ∈ letters))
  tail : ∀ (flags : ServerFlags) eTail, p { flags with eTail } = p flags
  long : ∀ (flags : ServerFlags) rest,
    p (flags.setLong scaled rest) = (p flags || decide (∃ name ∈ names, rest = name.toList))

namespace IsSetBy

variable {p : ServerFlags → Bool} {letters : List Char} {names : List String}

/-- The letters of a bundle set the flag when it is set by one of them. -/
theorem setLetters
    (h : IsSetBy scaled p letters names) (flags : ServerFlags) (bytes : List UInt8) :
  p (flags.setLetters bytes).expandArchive = true ↔ p flags.expandArchive = true ∨
    ∃ c ∈ letters, c ∈ (bytes.map Char.ofUInt8).takeWhile (· ≠ 'e')
  := by
  induction bytes generalizing flags with
  | nil => simp [ServerFlags.setLetters]
  | cons b bytes ih =>
      rw [ServerFlags.setLetters, List.map_cons]
      by_cases he : Char.ofUInt8 b = 'e'
      · rw [if_pos he, h.archive, h.tail, ← h.archive flags,
          List.takeWhile_cons_of_neg (by simpa using he)]
        simp
      · rw [if_neg he, ih, h.letter, List.takeWhile_cons_of_pos (by simpa using he)]
        simp only [Bool.or_eq_true, decide_eq_true_eq, List.mem_cons, or_assoc]
        apply or_congr_right
        aesop

/-- An argument sets the flag. -/
theorem takeArg
    (h : IsSetBy scaled p letters names) (s : ServerFlags × List Str) (arg : Str) :
  p (takeArg scaled s arg).1 = true ↔ p s.1 = true ∨ Sets letters names arg
  := by
  unfold Sets
  induction arg using arg_cases with
  | long rest =>
      have harg : ServerFlags.takeArg scaled s ('-' :: '-' :: rest) =
        (s.1.setLong scaled rest, s.2) := rfl
      have hnone : bundleLetters ('-' :: '-' :: rest) = [] := rfl
      rw [harg, h.long, hnone]
      simp
  | bundle c rest hc =>
      have hparse : parse ('-' :: c :: rest) =
        (ServerFlags.setLetters {} (Str.bytes (c :: rest))).expandArchive := rfl
      have hbundle := h.setLetters {} (Str.bytes (c :: rest))
      rw [h.archive {}, h.default] at hbundle
      rw [takeArg_bundle s hc, h.merge, hparse, Bool.or_eq_true, hbundle,
        bundleLetters_bundle hc]
      · simp [hc]
      · apply delete_parse
  | path arg harg =>
      rw [takeArg_path s harg]
      exact (or_iff_left (not_sets_path harg)).symm

/-- A flag is set by some arguments when it is set by one of them. -/
theorem foldl
    (h : IsSetBy scaled p letters names) (s : ServerFlags × List Str) (args : List Str) :
  p (args.foldl (ServerFlags.takeArg scaled) s).1 = true ↔
    p s.1 = true ∨ ∃ arg ∈ args, Sets letters names arg
  := by
  induction args generalizing s with
  | nil => simp
  | cons arg args ih =>
      rw [List.foldl_cons, ih, h.takeArg]
      simp only [List.mem_cons, exists_eq_or_imp, or_assoc]

end IsSetBy

/-- What has only letters is not set by a long option. -/
theorem setLong_letters
    (flags : ServerFlags) (rest : Str) :
  (flags.setLong scaled rest).owner = flags.owner ∧
    (flags.setLong scaled rest).group = flags.group ∧
    (flags.setLong scaled rest).times = flags.times ∧
    (flags.setLong scaled rest).devices = flags.devices ∧
    (flags.setLong scaled rest).recursive = flags.recursive ∧
    (flags.setLong scaled rest).checksum = flags.checksum ∧
    (flags.setLong scaled rest).compress = flags.compress ∧
    (flags.setLong scaled rest).hardLinks = flags.hardLinks ∧
    (flags.setLong scaled rest).update = flags.update
  := by
  obtain ⟨_, _, _, _, hlong⟩ := setLong_flags scaled flags rest
  rw [hlong]
  exact ⟨rfl, rfl, rfl, rfl, rfl, rfl, rfl, rfl, rfl⟩

theorem isSetBy_delete :
  IsSetBy scaled (·.delete) [] deleteNames
  := by
  refine ⟨rfl, ?_, ?_, ?_, fun _ _ => rfl, ?_⟩
  · simp [expandArchive_flags]
  · intro flags f hf
    rw [hf, Bool.or_false]
    rfl
  · simp [expandArchive_flags, setLetter_flags]
  · intro flags rest
    obtain ⟨_, _, _, _, hlong⟩ := setLong_flags scaled flags rest
    rw [hlong]

theorem isSetBy_ignoreExisting :
  IsSetBy scaled (·.ignoreExisting) [] ["ignore-existing"]
  := by
  refine ⟨rfl, ?_, fun _ _ _ => rfl, ?_, fun _ _ => rfl, ?_⟩
  · simp [expandArchive_flags]
  · simp [expandArchive_flags, setLetter_flags]
  · intro flags rest
    obtain ⟨_, _, _, _, hlong⟩ := setLong_flags scaled flags rest
    simp only [hlong, List.mem_singleton, exists_eq_left]

theorem isSetBy_pruneEmptyDirs :
  IsSetBy scaled (·.pruneEmptyDirs) ['m'] ["prune-empty-dirs"]
  := by
  refine ⟨rfl, ?_, fun _ _ _ => rfl, ?_, fun _ _ => rfl, ?_⟩
  · simp [expandArchive_flags]
  · intro flags c
    rw [Bool.eq_iff_iff]
    simp [expandArchive_flags, setLetter_flags]
  · intro flags rest
    obtain ⟨_, _, _, _, hlong⟩ := setLong_flags scaled flags rest
    simp only [hlong, List.mem_singleton, exists_eq_left]

/-- The compared flags are set by their letters and long options. -/
theorem isSetBy_compared
    (scaled : Str → ℤ → Option ℤ) {flag : ComparedFlag} (h : flag ∈ comparedFlags) :
  IsSetBy scaled flag.server flag.letters flag.names
  := by
  simp only [comparedFlags, List.mem_cons, List.not_mem_nil, or_false] at h
  obtain rfl | rfl | rfl | h := h
  · apply isSetBy_delete
  · apply isSetBy_ignoreExisting
  · apply isSetBy_pruneEmptyDirs
  obtain rfl | rfl | rfl | rfl | rfl | rfl | rfl | rfl | rfl := h
  all_goals
    refine ⟨rfl, ?_, fun _ _ _ => rfl, ?_, fun _ _ => rfl, ?_⟩
    · simp [expandArchive_flags]
    · intro flags c
      rw [Bool.eq_iff_iff]
      simp [expandArchive_flags, setLetter_flags, or_assoc, or_left_comm]
    · simp [setLong_letters]

/-! ### Values that arguments set -/

theorem setLong_linkDest
    (flags : ServerFlags) (dir : Str) :
  flags.setLong scaled ("link-dest=".toList ++ dir) =
    { flags with linkDest := flags.linkDest ++ [dir] }
  := by
  simp [setLong, ← String.length_toList]

theorem setLong_filesFrom
    (flags : ServerFlags) (file : Str) :
  flags.setLong scaled ("files-from=".toList ++ file) = { flags with filesFrom := some file }
  := by
  simp [setLong, ← String.length_toList]

theorem setLong_maxSize
    (flags : ServerFlags) (size : Str) :
  flags.setLong scaled ("max-size=".toList ++ size) =
    { flags with maxSize := parseSizeStr scaled size }
  := by
  simp [setLong, ← String.length_toList]

theorem setLong_minSize
    (flags : ServerFlags) (size : Str) :
  flags.setLong scaled ("min-size=".toList ++ size) =
    { flags with minSize := parseSizeStr scaled size }
  := by
  simp [setLong, ← String.length_toList]

/-- A long option without a value leaves the values as they are. -/
theorem setLong_plain
    (flags : ServerFlags) {rest : Str} (hlink : ¬ "link-dest=".toList <+: rest)
    (hfiles : ¬ "files-from=".toList <+: rest) (hmax : ¬ "max-size=".toList <+: rest)
    (hmin : ¬ "min-size=".toList <+: rest) :
  (flags.setLong scaled rest).linkDest = flags.linkDest ∧
    (flags.setLong scaled rest).filesFrom = flags.filesFrom ∧
    (flags.setLong scaled rest).maxSize = flags.maxSize ∧
    (flags.setLong scaled rest).minSize = flags.minSize
  := by
  unfold setLong
  rw [if_neg hlink, if_neg hfiles, if_neg hmax, if_neg hmin]
  split
  · exact ⟨rfl, rfl, rfl, rfl⟩
  · split
    · exact ⟨rfl, rfl, rfl, rfl⟩
    · split
      · exact ⟨rfl, rfl, rfl, rfl⟩
      · split
        · exact ⟨rfl, rfl, rfl, rfl⟩
        · exact ⟨rfl, rfl, rfl, rfl⟩

/-- The values of a long option. -/
theorem setLong_values
    (flags : ServerFlags) (rest : Str) :
  (flags.setLong scaled rest).linkDest =
      flags.linkDest ++ (valueOf "link-dest" ('-' :: '-' :: rest)).toList ∧
    (flags.setLong scaled rest).filesFrom =
      ((valueOf "files-from" ('-' :: '-' :: rest)).map some).getD flags.filesFrom ∧
    (flags.setLong scaled rest).maxSize =
      ((valueOf "max-size" ('-' :: '-' :: rest)).map (parseSizeStr scaled)).getD
        flags.maxSize ∧
    (flags.setLong scaled rest).minSize =
      ((valueOf "min-size" ('-' :: '-' :: rest)).map (parseSizeStr scaled)).getD flags.minSize
  := by
  by_cases hlink : "link-dest=".toList <+: rest
  · obtain ⟨dir, rfl⟩ := hlink
    rw [setLong_linkDest]
    simp [valueOf]
  by_cases hfiles : "files-from=".toList <+: rest
  · obtain ⟨file, rfl⟩ := hfiles
    rw [setLong_filesFrom]
    simp [valueOf]
  by_cases hmax : "max-size=".toList <+: rest
  · obtain ⟨size, rfl⟩ := hmax
    rw [setLong_maxSize]
    simp [valueOf]
  by_cases hmin : "min-size=".toList <+: rest
  · obtain ⟨size, rfl⟩ := hmin
    rw [setLong_minSize]
    simp [valueOf]
  obtain ⟨hlink', hfiles', hmax', hmin'⟩ := setLong_plain flags hlink hfiles hmax hmin
  have hnone : ∀ name : String, ¬ name.toList ++ ['='] <+: rest →
    valueOf name ('-' :: '-' :: rest) = none := fun name h => if_neg h
  rw [hlink', hfiles', hmax', hmin', hnone "link-dest" (by simpa using hlink),
    hnone "files-from" (by simpa using hfiles), hnone "max-size" (by simpa using hmax),
    hnone "min-size" (by simpa using hmin)]
  simp

/-- The values of an argument. -/
theorem takeArg_values
    (s : ServerFlags × List Str) (arg : Str) :
  (takeArg scaled s arg).1.linkDest = s.1.linkDest ++ (valueOf "link-dest" arg).toList ∧
    (takeArg scaled s arg).1.filesFrom =
      ((valueOf "files-from" arg).map some).getD s.1.filesFrom ∧
    (takeArg scaled s arg).1.maxSize =
      ((valueOf "max-size" arg).map (parseSizeStr scaled)).getD s.1.maxSize ∧
    (takeArg scaled s arg).1.minSize =
      ((valueOf "min-size" arg).map (parseSizeStr scaled)).getD s.1.minSize
  := by
  induction arg using arg_cases with
  | long rest => apply setLong_values
  | bundle c letters hc =>
      rw [takeArg_bundle s hc]
      simp [valueOf_bundle hc, merge]
  | path arg harg =>
      rw [takeArg_path s harg]
      simp [valueOf_path harg]

/-- What the last argument with a long option gives to a field. -/
theorem foldl_lastValue
    {α : Type} {field : ServerFlags → α} {name : String} {read : Str → α}
    (hfield : ∀ s arg, field (takeArg scaled s arg).1 =
      ((valueOf name arg).map read).getD (field s.1))
    (s : ServerFlags × List Str) (args : List Str) :
  field (args.foldl (takeArg scaled) s).1 =
    ((lastValue name args).map read).getD (field s.1)
  := by
  induction args generalizing s with
  | nil => rfl
  | cons arg args ih =>
      rw [List.foldl_cons, ih, hfield, lastValue, lastValue, List.filterMap_cons]
      cases valueOf name arg with
      | none => rfl
      | some value =>
          rw [List.getLast?_cons]
          cases (args.filterMap (valueOf name)).getLast? <;> rfl

/-- The directories of all arguments. -/
theorem foldl_linkDest
    (s : ServerFlags × List Str) (args : List Str) :
  (args.foldl (takeArg scaled) s).1.linkDest =
    s.1.linkDest ++ args.filterMap (valueOf "link-dest")
  := by
  induction args generalizing s with
  | nil => simp
  | cons arg args ih =>
      rw [List.foldl_cons, ih, (takeArg_values s arg).1, List.filterMap_cons]
      cases valueOf "link-dest" arg <;> simp

/-- The paths are the arguments that are paths. -/
theorem foldl_paths
    (s : ServerFlags × List Str) (args : List Str) :
  (args.foldl (takeArg scaled) s).2 = s.2 ++ args.filter isPath
  := by
  induction args generalizing s with
  | nil => simp
  | cons arg args ih =>
      rw [List.foldl_cons, ih]
      induction arg using arg_cases with
      | long rest => rfl
      | bundle c letters hc =>
          have hpath : isPath ('-' :: c :: letters) = false := rfl
          rw [takeArg_bundle s hc, List.filter_cons_of_neg (by simp [hpath])]
      | path arg harg =>
          rw [takeArg_path s harg, List.filter_cons_of_pos harg, List.append_assoc]
          rfl

/-! ### All arguments -/

theorem isSetBy_archive
    (scaled : Str → ℤ → Option ℤ) :
  IsSetBy scaled (·.archive) ['a'] []
  := by
  refine ⟨rfl, ?_, fun _ _ _ => rfl, ?_, fun _ _ => rfl, ?_⟩
  · intro flags
    unfold expandArchive
    split <;> simp_all
  · intro flags c
    have hexpand : ∀ flags : ServerFlags, flags.expandArchive.archive = flags.archive := by
      intro flags
      unfold expandArchive
      split <;> rfl
    rw [Bool.eq_iff_iff]
    simp [hexpand, setLetter_flags]
  · intro flags rest
    obtain ⟨_, _, _, _, hlong⟩ := setLong_flags scaled flags rest
    simp [hlong]

/-- A flag is set when an argument sets it. -/
theorem IsSetBy.parseArgv
    {p : ServerFlags → Bool} {letters : List Char} {names : List String}
    (h : IsSetBy scaled p letters names) (args : List Str) :
  p (parseArgv scaled args).1 = true ↔ ∃ arg ∈ args, Sets letters names arg
  := by
  have hflag := h.foldl ({}, []) args
  have harchive := (isSetBy_archive scaled).foldl ({}, []) args
  rw [h.default] at hflag
  dsimp only at harchive
  unfold ServerFlags.parseArgv
  rw [h.archive, Bool.or_eq_true, Bool.and_eq_true, hflag, harchive, decide_eq_true_eq]
  constructor
  · rintro (hset | ⟨(hnot | ⟨arg, harg, hset⟩), ha⟩)
    · simpa using hset
    · cases hnot
    · refine ⟨arg, harg, Or.inl ⟨'a', ha, ?_⟩⟩
      simpa [Sets] using hset
  · intro hset
    apply Or.inl (Or.inr hset)

/-- The values and the paths that are found among the arguments. -/
theorem parseArgv_values
    (scaled : Str → ℤ → Option ℤ) (args : List Str) :
  (parseArgv scaled args).1.linkDest = args.filterMap (valueOf "link-dest") ∧
    (parseArgv scaled args).1.filesFrom = ((lastValue "files-from" args).map some).getD none ∧
    (parseArgv scaled args).1.maxSize =
      ((lastValue "max-size" args).map (parseSizeStr scaled)).getD none ∧
    (parseArgv scaled args).1.minSize =
      ((lastValue "min-size" args).map (parseSizeStr scaled)).getD none ∧
    (parseArgv scaled args).2 = args.filter isPath
  := by
  have hexpand : ∀ flags : ServerFlags, flags.expandArchive.linkDest = flags.linkDest ∧
      flags.expandArchive.filesFrom = flags.filesFrom ∧
      flags.expandArchive.maxSize = flags.maxSize ∧
      flags.expandArchive.minSize = flags.minSize := by
    intro flags
    unfold expandArchive
    split <;> exact ⟨rfl, rfl, rfl, rfl⟩
  unfold ServerFlags.parseArgv
  dsimp only
  obtain ⟨hlink, hfiles, hmax, hmin⟩ :=
    hexpand (args.foldl (ServerFlags.takeArg scaled) ({}, [])).1
  rw [hlink, hfiles, hmax, hmin, foldl_linkDest, foldl_paths,
    foldl_lastValue (fun s arg => (takeArg_values s arg).2.1),
    foldl_lastValue (fun s arg => (takeArg_values s arg).2.2.1),
    foldl_lastValue (fun s arg => (takeArg_values s arg).2.2.2)]
  exact ⟨rfl, rfl, rfl, rfl, rfl⟩

end ServerFlags
