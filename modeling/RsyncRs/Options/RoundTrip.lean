import RsyncRs.Flist.Entry
import RsyncRs.Options.Parsed
import RsyncRs.Options.ServerArgs

/-!
# Options on the server

The server finds the options of the client among its arguments, but it takes the text of a
filter rule for an argument like any other: for a bundle of letters, for a long option, or for
a path.
-/

/-! ### Fields that are sent -/

/-- The fields of an entry that a server sends and expects. -/
def ServerFlags.toPreserve (flags : ServerFlags) : Preserve :=
  { uid := flags.owner, gid := flags.group, times := flags.times, devices := flags.devices }

namespace Options

/-- The fields of an entry that a client sends and expects. -/
def toPreserve (opts : Options) : Preserve :=
  { uid := opts.owner || opts.archive
    gid := opts.group || opts.archive
    times := opts.times || opts.archive
    devices := false }

/-! ### The command line of the server -/

/-- The arguments with which the server is started for the path `operand`. -/
def serverArgv (opts : Options) (isSender : Bool) (operand : Str) : List Str :=
  "--server".toList :: opts.serverArgs ++ (if isSender then ["--sender".toList] else []) ++
    [".".toList, operand]

open ServerFlags

/-- The server has the options of the client, and the paths. -/
structure Arrive (scaled : Str → ℤ → Option ℤ) (opts : Options) (operand : Str)
    (parsed : ServerFlags × List Str) : Prop where
  flags : ∀ flag ∈ comparedFlags, flag.server parsed.1 = flag.client opts
  maxSize : parsed.1.maxSize = opts.maxSize.bind (parseSizeStr scaled)
  minSize : parsed.1.minSize = opts.minSize.bind (parseSizeStr scaled)
  linkDest : parsed.1.linkDest = opts.linkDest
  filesFrom : parsed.1.filesFrom = opts.filesFrom
  paths : parsed.2 = [".".toList, operand]

/-- No rule is taken for an argument that changes what the server has. -/
structure RulesPass (scaled : Str → ℤ → Option ℤ) (opts : Options) : Prop where
  flags : ∀ flag ∈ comparedFlags, flag.client opts = true ∨
    ∀ rule ∈ opts.filter, ¬ Sets flag.letters flag.names rule
  maxSize : ∀ size ∈ lastValue "max-size" opts.filter,
    parseSizeStr scaled size = opts.maxSize.bind (parseSizeStr scaled)
  minSize : ∀ size ∈ lastValue "min-size" opts.filter,
    parseSizeStr scaled size = opts.minSize.bind (parseSizeStr scaled)
  linkDest : ∀ rule ∈ opts.filter, valueOf "link-dest" rule = none
  filesFrom : ∀ file ∈ lastValue "files-from" opts.filter, opts.filesFrom = some file
  paths : ∀ rule ∈ opts.filter, isPath rule = false

/-! ### Letters of the client -/

theorem mem_letter
    {isSet : Bool} {c d : Char} :
  d ∈ letter isSet c ↔ isSet = true ∧ d = c
  := by
  cases isSet <;> simp [letter]

/-- The letters that a client sends. -/
def knownLetters : List Char :=
  "vqarlptgoDcuHLkWnRbxiOmyz".toList

theorem known_letter
    {c : Char} (hc : c ∈ knownLetters) (isSet : Bool) :
  letter isSet c ⊆ knownLetters
  := by
  intro d hd
  rw [(mem_letter.1 hd).2]
  apply hc

theorem known_flagLetters
    (opts : Options) :
  opts.flagLetters ⊆ knownLetters
  := by
  have hverbose : List.replicate opts.verbose 'v' ⊆ knownLetters := by
    intro c hc
    rw [(List.mem_replicate.1 hc).2]
    decide
  have harchive : ['a'] ⊆ knownLetters := by decide
  unfold flagLetters
  split <;>
    simp (disch := decide) only [List.append_subset, hverbose, harchive, known_letter, and_self]

theorem encode_known :
  ∀ c ∈ knownLetters,
    (String.utf8EncodeChar c).map Char.ofUInt8 = [c] ∧ c ≠ 'e' ∧ c ≠ '-'
  := by
  have hall : (knownLetters.all fun c =>
      (String.utf8EncodeChar c).map Char.ofUInt8 = [c] ∧ c ≠ 'e' ∧ c ≠ '-') = true := by
    decide
  intro c hc
  simpa using List.all_eq_true.mp hall c hc

theorem bytes_known
    {s : Str} (h : s ⊆ knownLetters) :
  (Str.bytes s).map Char.ofUInt8 = s
  := by
  induction s with
  | nil => rfl
  | cons c s ih =>
      have hs := List.cons_subset.1 h
      rw [Str.bytes, List.flatMap_cons, List.map_append, (encode_known c hs.1).1]
      exact congrArg (c :: ·) (ih hs.2)

/-- The bundle of a client is no long option and no path. -/
theorem bundle_flagsArg
    {opts : Options} {arg : Str} (h : arg ∈ opts.flagsArg) :
  ∃ c letters, c ≠ '-' ∧ arg = '-' :: c :: letters
  := by
  have hknown := known_flagLetters opts
  unfold flagsArg at h
  cases hletters : opts.flagLetters with
  | nil => simp [hletters] at h
  | cons c letters =>
      rw [hletters] at h hknown
      simp only [reduceCtorEq, if_false, List.mem_singleton] at h
      exact ⟨c, letters, (encode_known c (hknown List.mem_cons_self)).2.2, h⟩

/-- The bundle of a client sets what its letters set. -/
theorem sets_flagsArg
    (opts : Options) (letters : List Char) (names : List String) :
  (∃ arg ∈ opts.flagsArg, Sets letters names arg) ↔ ∃ c ∈ letters, c ∈ opts.flagLetters
  := by
  have hknown := known_flagLetters opts
  unfold flagsArg
  match opts.flagLetters, hknown with
  | [], _ => simp
  | c :: rest, hknown =>
      have hc : c ≠ '-' := (encode_known c (hknown List.mem_cons_self)).2.2
      have hall : (c :: rest).takeWhile (· ≠ 'e') = c :: rest := by
        rw [List.takeWhile_eq_self_iff]
        intro d hd
        simpa using (encode_known d (hknown hd)).2.1
      rw [if_neg (List.cons_ne_nil c rest)]
      simp only [List.mem_singleton, exists_eq_left, Sets, bundleLetters_bundle hc,
        bytes_known hknown, hall]
      simp [hc]

/-! ### Long options of the client -/

/-- A long option without a value has the name. -/
def HasPlain (name : String) (longs : List LongArg) : Prop :=
  ∃ long ∈ longs, long.value = none ∧ long.name = name.toList

/-- The values of the long options that have the name. -/
def values (name : String) (longs : List LongArg) : List Str :=
  longs.filterMap fun long => if long.name = name.toList then long.value else none

theorem hasPlain_append
    (name : String) (longs longs' : List LongArg) :
  HasPlain name (longs ++ longs') ↔ HasPlain name longs ∨ HasPlain name longs'
  := by
  simp only [HasPlain, List.mem_append, or_and_right, exists_or]

theorem hasPlain_flag
    (name : String) (isSet : Bool) (other : String) (plain : '=' ∉ other.toList) :
  HasPlain name (flag isSet other plain) ↔ isSet = true ∧ other = name
  := by
  cases isSet <;> simp [HasPlain, flag, String.toList_inj]

theorem hasPlain_valued
    (name : String) (value : Option Str) (other : String) (plain : '=' ∉ other.toList) :
  ¬ HasPlain name (valued other value plain)
  := by
  cases value <;> simp [HasPlain, valued]

theorem hasPlain_flatMap
    (name : String) (texts : List Str) (other : String) (plain : '=' ∉ other.toList) :
  ¬ HasPlain name (texts.flatMap fun text => valued other (some text) plain)
  := by
  simp [HasPlain, valued]

theorem values_append
    (name : String) (longs longs' : List LongArg) :
  values name (longs ++ longs') = values name longs ++ values name longs'
  := List.filterMap_append

theorem values_flag
    (name : String) (isSet : Bool) (other : String) (plain : '=' ∉ other.toList) :
  values name (flag isSet other plain) = []
  := by
  cases isSet <;> simp [values, flag]

theorem values_valued
    (name : String) (value : Option Str) (other : String) (plain : '=' ∉ other.toList) :
  values name (valued other value plain) = if other = name then value.toList else []
  := by
  cases value with
  | none => simp [values, valued]
  | some value => by_cases h : other = name <;> simp [values, valued, String.toList_inj, h]

theorem values_flatMap
    (name : String) (texts : List Str) (other : String) (plain : '=' ∉ other.toList) :
  values name (texts.flatMap fun text => valued other (some text) plain) =
    if other = name then texts else []
  := by
  induction texts with
  | nil => simp [values]
  | cons text texts ih =>
      rw [List.flatMap_cons, values_append, values_valued, ih]
      split <;> rfl

/-- A long option of the client sets what has its name. -/
theorem sets_arg
    (long : LongArg) {letters : List Char} {names : List String}
    (hnames : ∀ name ∈ names, '=' ∉ name.toList) :
  Sets letters names long.arg ↔ long.value = none ∧ ∃ name ∈ names, long.name = name.toList
  := by
  unfold Sets LongArg.arg
  cases long.value with
  | none => simp [bundleLetters]
  | some value =>
      simp only [bundleLetters, List.not_mem_nil, and_false, exists_false, false_or,
        List.cons.injEq, true_and, reduceCtorEq, false_and, iff_false, not_exists, not_and]
      intro name hname h
      apply hnames name hname
      rw [← h]
      simp

/-- What stands before the first equals sign. -/
theorem eq_of_append_equals
    {s t rest rest' : Str} (hs : '=' ∉ s) (ht : '=' ∉ t)
    (h : s ++ '=' :: rest = t ++ '=' :: rest') :
  s = t
  := by
  have htake : ∀ u v : Str, '=' ∉ u → (u ++ '=' :: v).takeWhile (· ≠ '=') = u := by
    intro u v hu
    rw [List.takeWhile_append_of_pos]
    · simp
    · intro c hc
      simpa using ne_of_mem_of_not_mem hc hu
  rw [← htake s rest hs, h, htake t rest' ht]

/-- The value of a long option of the client. -/
theorem valueOf_arg
    (long : LongArg) {name : String} (hname : '=' ∉ name.toList) :
  valueOf name long.arg = if long.name = name.toList then long.value else none
  := by
  unfold LongArg.arg
  cases long.value with
  | none =>
      rw [ite_self, valueOf, if_neg]
      intro h
      apply long.plain (h.subset (by simp))
  | some value =>
      rw [valueOf]
      by_cases h : long.name = name.toList
      · rw [if_pos h, h, if_pos ⟨value, by simp⟩]
        simp
      · rw [if_neg h, if_neg]
        rintro ⟨rest, hrest⟩
        rw [List.append_assoc, List.singleton_append] at hrest
        apply h (eq_of_append_equals long.plain hname hrest.symm)

/-! ### The arguments of the client -/

/-- What has a letter or a long option of the client. -/
def IsSent (opts : Options) (letters : List Char) (names : List String) : Prop :=
  (∃ c ∈ letters, c ∈ opts.flagLetters) ∨
    ∃ name ∈ names, HasPlain name opts.longArgs

theorem sets_plain
    {letters : List Char} {names : List String} (name : String) :
  Sets letters names ('-' :: '-' :: name.toList) ↔ name ∈ names
  := by
  simp [Sets, bundleLetters, String.toList_inj]

/-- The arguments set what the client sends, and what its rules set. -/
theorem sets_serverArgv
    (opts : Options) (isSender : Bool) {operand : Str} (hoperand : isPath operand = true)
    {letters : List Char} {names : List String} (hplain : ∀ name ∈ names, '=' ∉ name.toList)
    (hother : ∀ name ∈ ["server", "sender", "filter"], name ∉ names) :
  (∃ arg ∈ opts.serverArgv isSender operand, Sets letters names arg) ↔
    opts.IsSent letters names ∨ ∃ rule ∈ opts.filter, Sets letters names rule
  := by
  have hother' : ∀ name ∈ ["server", "sender", "filter"],
      ¬ Sets letters names ('-' :: '-' :: name.toList) :=
    fun name hname hsets => hother name hname ((sets_plain name).1 hsets)
  have hserver : ¬ Sets letters names "--server".toList := hother' "server" (by simp)
  have hsender : ¬ Sets letters names "--sender".toList := hother' "sender" (by simp)
  have hfilter : ¬ Sets letters names "--filter".toList := hother' "filter" (by simp)
  have hflags := sets_flagsArg opts letters names
  have hlongs : (∃ arg ∈ opts.longArgs.map LongArg.arg, Sets letters names arg) ↔
      ∃ name ∈ names, HasPlain name opts.longArgs := by
    constructor
    · rintro ⟨arg, harg, hsets⟩
      obtain ⟨long, hlong, rfl⟩ := List.mem_map.1 harg
      obtain ⟨hnone, name, hname, heq⟩ := (sets_arg long hplain).1 hsets
      exact ⟨name, hname, long, hlong, hnone, heq⟩
    · rintro ⟨name, hname, long, hlong, hnone, heq⟩
      exact ⟨long.arg, List.mem_map_of_mem hlong,
        (sets_arg long hplain).2 ⟨hnone, name, hname, heq⟩⟩
  have hrules : (∃ arg ∈ opts.filter.flatMap filterArgs, Sets letters names arg) ↔
      ∃ rule ∈ opts.filter, Sets letters names rule := by
    constructor
    · rintro ⟨arg, harg, hsets⟩
      obtain ⟨rule, hrule, harg⟩ := List.mem_flatMap.1 harg
      obtain rfl | harg := List.mem_cons.1 harg
      · cases hfilter hsets
      · rw [List.mem_singleton.1 harg] at hsets
        exact ⟨rule, hrule, hsets⟩
    · rintro ⟨rule, hrule, hsets⟩
      exact ⟨rule, List.mem_flatMap.2 ⟨rule, hrule, by simp [filterArgs]⟩, hsets⟩
  have hpaths : ¬ ∃ arg ∈ [".".toList, operand], Sets letters names arg := by
    rintro ⟨arg, harg, hsets⟩
    obtain rfl | harg := List.mem_cons.1 harg
    · exact not_sets_path (by decide) hsets
    · rw [List.mem_singleton.1 harg] at hsets
      exact not_sets_path hoperand hsets
  have hsome : ¬ ∃ arg ∈ (if isSender then ["--sender".toList] else []),
      Sets letters names arg := by
    cases isSender with
    | false => simp
    | true => simpa only [if_true, List.mem_singleton, exists_eq_left] using hsender
  have happend : ∀ args args' : List Str, (∃ arg ∈ args ++ args', Sets letters names arg) ↔
      (∃ arg ∈ args, Sets letters names arg) ∨ ∃ arg ∈ args', Sets letters names arg := by
    intro args args'
    simp only [List.mem_append, or_and_right, exists_or]
  unfold serverArgv serverArgs IsSent
  rw [← List.singleton_append]
  simp only [happend, List.mem_singleton, exists_eq_left, hserver, hflags, hlongs, hrules, hsome,
    hpaths, false_or, or_false, or_assoc]

/-- The values of a long option that the server finds. -/
theorem values_serverArgv
    (opts : Options) (isSender : Bool) {operand : Str} (hoperand : isPath operand = true)
    {name : String} (hname : '=' ∉ name.toList) :
  (opts.serverArgv isSender operand).filterMap (valueOf name) =
    values name opts.longArgs ++ opts.filter.filterMap (valueOf name)
  := by
  have hnone : ∀ other : String, '=' ∉ other.toList →
      valueOf name ('-' :: '-' :: other.toList) = none := by
    intro other hother
    exact (valueOf_arg ⟨other.toList, none, hother⟩ hname).trans (ite_self _)
  have hserver : valueOf name "--server".toList = none := hnone "server" (by decide)
  have hsender : valueOf name "--sender".toList = none := hnone "sender" (by decide)
  have hfilter : valueOf name "--filter".toList = none := hnone "filter" (by decide)
  have hflags : opts.flagsArg.filterMap (valueOf name) = [] := by
    rw [List.filterMap_eq_nil_iff]
    intro arg harg
    obtain ⟨c, letters, hc, rfl⟩ := bundle_flagsArg harg
    apply valueOf_bundle hc
  have hlongs : (opts.longArgs.map LongArg.arg).filterMap (valueOf name) =
      values name opts.longArgs := by
    rw [List.filterMap_map, values]
    apply List.filterMap_congr
    intro long _
    apply valueOf_arg long hname
  have hrules : (opts.filter.flatMap filterArgs).filterMap (valueOf name) =
      opts.filter.filterMap (valueOf name) := by
    induction opts.filter with
    | nil => rfl
    | cons rule rules ih =>
        rw [List.flatMap_cons, List.filterMap_append, ih, filterArgs,
          List.filterMap_cons_none hfilter, ← List.filterMap_append]
        rfl
  have hsome : (if isSender then ["--sender".toList] else []).filterMap (valueOf name) = [] := by
    cases isSender with
    | false => rfl
    | true => exact List.filterMap_cons_none hsender
  have hpaths : [".".toList, operand].filterMap (valueOf name) = [] := by
    rw [List.filterMap_cons_none (valueOf_path (by decide)),
      List.filterMap_cons_none (valueOf_path hoperand)]
    rfl
  unfold serverArgv serverArgs
  simp only [List.cons_append, List.filterMap_cons_none hserver, List.filterMap_append, hflags,
    hlongs, hrules, hsome, hpaths, List.nil_append, List.append_nil]

/-- The paths that the server finds. -/
theorem paths_serverArgv
    (opts : Options) (isSender : Bool) {operand : Str} (hoperand : isPath operand = true) :
  (opts.serverArgv isSender operand).filter isPath =
    opts.filter.filter isPath ++ [".".toList, operand]
  := by
  have hflags : opts.flagsArg.filter isPath = [] := by
    rw [List.filter_eq_nil_iff]
    intro arg harg
    obtain ⟨c, letters, -, rfl⟩ := bundle_flagsArg harg
    simp [isPath]
  have hlongs : (opts.longArgs.map LongArg.arg).filter isPath = [] := by
    rw [List.filter_eq_nil_iff]
    intro arg harg
    obtain ⟨long, -, rfl⟩ := List.mem_map.1 harg
    unfold LongArg.arg
    cases long.value <;> simp [isPath]
  have hrules : (opts.filter.flatMap filterArgs).filter isPath = opts.filter.filter isPath := by
    induction opts.filter with
    | nil => rfl
    | cons rule rules ih =>
        have hfilter : ¬ isPath "--filter".toList = true := by decide
        rw [List.flatMap_cons, List.filter_append, ih, filterArgs,
          List.filter_cons_of_neg hfilter, ← List.filter_append]
        rfl
  have hsome : (if isSender then ["--sender".toList] else []).filter isPath = [] := by
    cases isSender <;> decide
  have hpaths : [".".toList, operand].filter isPath = [".".toList, operand] := by
    rw [List.filter_cons_of_pos (by decide), List.filter_cons_of_pos hoperand]
    rfl
  have hserver : ¬ isPath "--server".toList = true := by decide
  unfold serverArgv serverArgs
  simp only [List.cons_append, List.filter_cons_of_neg hserver, List.filter_append, hflags,
    hlongs, hrules, hsome, hpaths, List.nil_append, List.append_nil]

/-- The shortcut for archives implies what it stands for. -/
theorem expandArchive_archive
    (opts : Options) (h : opts.expandArchive.archive = true) :
  opts.expandArchive.recursive = true ∧ opts.expandArchive.times = true ∧
    opts.expandArchive.group = true ∧ opts.expandArchive.owner = true ∧
    opts.expandArchive.devices = true
  := by
  unfold expandArchive at h ⊢
  split at h
  · next hopts =>
    rw [if_pos hopts]
    exact ⟨rfl, rfl, rfl, rfl, rfl⟩
  · next hopts =>
    cases hopts h

theorem mem_flagLetters
    (opts : Options) (c : Char) :
  c ∈ opts.flagLetters ↔ opts.verbose ≠ 0 ∧ c = 'v' ∨ opts.quiet = true ∧ c = 'q' ∨
    opts.archive = true ∧ c = 'a' ∨
    opts.archive = false ∧ (opts.recursive = true ∧ c = 'r' ∨ opts.links = true ∧ c = 'l' ∨
      opts.perms = true ∧ c = 'p' ∨ opts.times = true ∧ c = 't' ∨
      opts.group = true ∧ c = 'g' ∨ opts.owner = true ∧ c = 'o' ∨
      opts.devices = true ∧ c = 'D') ∨
    opts.checksum = true ∧ c = 'c' ∨ opts.update = true ∧ c = 'u' ∨
    opts.hardLinks = true ∧ c = 'H' ∨ opts.copyLinks = true ∧ c = 'L' ∨
    opts.keepDirlinks = true ∧ c = 'k' ∨ opts.wholeFile = true ∧ c = 'W' ∨
    opts.dryRun = true ∧ c = 'n' ∨ opts.relative = true ∧ c = 'R' ∨
    opts.backup = true ∧ c = 'b' ∨ opts.oneFileSystem = true ∧ c = 'x' ∨
    opts.itemizeChanges = true ∧ c = 'i' ∨ opts.omitDirTimes = true ∧ c = 'O' ∨
    opts.pruneEmptyDirs = true ∧ c = 'm' ∨ opts.fuzzy = true ∧ c = 'y' ∨
    opts.compress = true ∧ c = 'z'
  := by
  unfold flagLetters
  cases h : opts.archive <;>
    simp [mem_letter, or_assoc]

theorem hasPlain_longArgs
    (opts : Options) :
  (HasPlain "delete" opts.longArgs ↔ opts.delete = true) ∧
    (HasPlain "delete-before" opts.longArgs ↔ opts.deleteBefore = true) ∧
    (HasPlain "delete-during" opts.longArgs ↔ opts.deleteDuring = true) ∧
    (HasPlain "delete-after" opts.longArgs ↔ opts.deleteAfter = true) ∧
    (HasPlain "ignore-existing" opts.longArgs ↔ opts.ignoreExisting = true) ∧
    ¬ HasPlain "prune-empty-dirs" opts.longArgs
  := by
  unfold longArgs
  simp only [hasPlain_append, hasPlain_flag, hasPlain_valued, hasPlain_flatMap, String.reduceEq,
    and_true, and_false, or_false, false_or, not_false_eq_true, and_self]

/-- The server finds the compared flags of the client. -/
theorem isSent_compared
    (opts : Options) {flag : ComparedFlag} (h : flag ∈ comparedFlags) :
  opts.expandArchive.IsSent flag.letters flag.names ↔ flag.client opts.expandArchive = true
  := by
  have harchive := expandArchive_archive opts
  revert harchive
  generalize opts.expandArchive = opts
  intro harchive
  simp only [comparedFlags, List.mem_cons, List.not_mem_nil, or_false] at h
  obtain rfl | rfl | rfl | h := h
  · obtain ⟨hdelete, hbefore, hduring, hafter, -, -⟩ := hasPlain_longArgs opts
    simp [IsSent, deleteNames, hdelete, hbefore, hduring, hafter, or_assoc]
  · obtain ⟨-, -, -, -, hignore, -⟩ := hasPlain_longArgs opts
    simp [IsSent, hignore]
  · obtain ⟨-, -, -, -, -, hprune⟩ := hasPlain_longArgs opts
    simp [IsSent, hprune, mem_flagLetters]
  -- the letters for which an archive stands
  cases hbundle : opts.archive with
  | true =>
      obtain ⟨hrecursive, htimes, hgroup, howner, hdevices⟩ := harchive hbundle
      obtain rfl | rfl | rfl | rfl | rfl | rfl | rfl | rfl | rfl := h
      all_goals
        simp [IsSent, mem_flagLetters, hbundle, hrecursive, htimes, hgroup, howner, hdevices]
  | false =>
      obtain rfl | rfl | rfl | rfl | rfl | rfl | rfl | rfl | rfl := h
      all_goals
        simp [IsSent, mem_flagLetters, hbundle]

/-- The server finds the values of the client. -/
theorem values_longArgs
    (opts : Options) :
  values "max-size" opts.longArgs = opts.maxSize.toList ∧
    values "min-size" opts.longArgs = opts.minSize.toList ∧
    values "link-dest" opts.longArgs = opts.linkDest ∧
    values "files-from" opts.longArgs = opts.filesFrom.toList
  := by
  unfold longArgs
  simp only [values_append, values_flag, values_valued, values_flatMap, String.reduceEq, if_true,
    if_false, List.append_nil, List.nil_append, and_self]

/-! ### What arrives -/

variable (scaled : Str → ℤ → Option ℤ)

/-- A compared flag arrives when it is set, or when no rule sets it. -/
theorem flag_arrives_iff
    (opts : Options) (isSender : Bool) {operand : Str} (hoperand : isPath operand = true)
    {flag : ComparedFlag} (h : flag ∈ comparedFlags) :
  flag.server (parseArgv scaled (opts.expandArchive.serverArgv isSender operand)).1 =
      flag.client opts.expandArchive ↔
    flag.client opts.expandArchive = true ∨
      ∀ rule ∈ opts.expandArchive.filter, ¬ Sets flag.letters flag.names rule
  := by
  have hnames : ∀ flag ∈ comparedFlags, (∀ name ∈ flag.names, '=' ∉ name.toList) ∧
      ∀ name ∈ ["server", "sender", "filter"], name ∉ flag.names := by
    decide
  have hparse := (isSetBy_compared scaled h).parseArgv
    (opts.expandArchive.serverArgv isSender operand)
  rw [sets_serverArgv _ isSender hoperand (hnames flag h).1 (hnames flag h).2,
    isSent_compared opts h] at hparse
  rw [Bool.eq_iff_iff, hparse]
  constructor
  · intro hiff
    by_cases hclient : flag.client opts.expandArchive = true
    · apply Or.inl hclient
    · apply Or.inr
      intro rule hrule hsets
      apply hclient (hiff.1 (Or.inr ⟨rule, hrule, hsets⟩))
  · rintro (hclient | hrules)
    · simp only [hclient, true_or]
    · refine or_iff_left ?_
      rintro ⟨rule, hrule, hsets⟩
      apply hrules rule hrule hsets

/-- The last value that the server finds is that of a rule, if there is one. -/
theorem lastValue_serverArgv
    (opts : Options) (isSender : Bool) {operand : Str} (hoperand : isPath operand = true)
    {name : String} (hname : '=' ∉ name.toList) :
  lastValue name (opts.serverArgv isSender operand) =
    (lastValue name opts.filter).or (values name opts.longArgs).getLast?
  := by
  rw [lastValue, values_serverArgv opts isSender hoperand hname, List.getLast?_append, lastValue]

/-- A value arrives when no rule has one, or when the last rule with one has the same. -/
theorem value_arrives_iff
    {α : Type} (value fromRules : Option Str) (read : Str → Option α) :
  ((fromRules.or value).map read).getD none = value.bind read ↔
    ∀ text ∈ fromRules, read text = value.bind read
  := by
  cases fromRules with
  | none => cases value <;> simp
  | some text => simp

/-- The options arrive when no rule is taken for an argument that changes them. -/
theorem arrive_iff
    (opts : Options) (isSender : Bool) {operand : Str} (hoperand : isPath operand = true) :
  opts.expandArchive.Arrive scaled operand
      (parseArgv scaled (opts.expandArchive.serverArgv isSender operand)) ↔
    opts.expandArchive.RulesPass scaled
  := by
  have hflag := fun flag (h : flag ∈ comparedFlags) =>
    flag_arrives_iff scaled opts isSender hoperand h
  revert hflag
  generalize opts.expandArchive = opts
  intro hflag
  obtain ⟨hlink, hfiles, hmax, hmin, hpaths⟩ :=
    parseArgv_values scaled (opts.serverArgv isSender operand)
  obtain ⟨hmax', hmin', hlink', hfiles'⟩ := values_longArgs opts
  have hlast : ∀ value : Option Str, value.toList.getLast? = value := by
    intro value
    cases value <;> rfl
  rw [lastValue_serverArgv opts isSender hoperand (by decide), hfiles', hlast] at hfiles
  rw [lastValue_serverArgv opts isSender hoperand (by decide), hmax', hlast] at hmax
  rw [lastValue_serverArgv opts isSender hoperand (by decide), hmin', hlast] at hmin
  rw [values_serverArgv opts isSender hoperand (by decide), hlink'] at hlink
  rw [paths_serverArgv opts isSender hoperand] at hpaths
  have hfilesIff := value_arrives_iff opts.filesFrom (lastValue "files-from" opts.filter) some
  have hmaxIff := value_arrives_iff opts.maxSize (lastValue "max-size" opts.filter)
    (parseSizeStr scaled)
  have hminIff := value_arrives_iff opts.minSize (lastValue "min-size" opts.filter)
    (parseSizeStr scaled)
  rw [← hfiles, Option.bind_fun_some] at hfilesIff
  rw [← hmax] at hmaxIff
  rw [← hmin] at hminIff
  constructor
  · intro h
    refine ⟨fun flag hin => (hflag flag hin).1 (h.flags flag hin), hmaxIff.1 h.maxSize,
      hminIff.1 h.minSize, ?_, fun file hfile => (hfilesIff.1 h.filesFrom file hfile).symm, ?_⟩
    · have hnil := hlink.symm.trans h.linkDest
      rw [List.append_right_eq_self, List.filterMap_eq_nil_iff] at hnil
      apply hnil
    · have hnil := hpaths.symm.trans h.paths
      rw [List.append_left_eq_self, List.filter_eq_nil_iff] at hnil
      intro rule hrule
      simpa using hnil rule hrule
  · intro h
    refine ⟨fun flag hin => (hflag flag hin).2 (h.flags flag hin), hmaxIff.2 h.maxSize,
      hminIff.2 h.minSize, ?_, hfilesIff.2 fun file hfile => (h.filesFrom file hfile).symm, ?_⟩
    · rw [hlink, List.filterMap_eq_nil_iff.2 h.linkDest, List.append_nil]
    · rw [hpaths, List.filter_eq_nil_iff.2 fun rule hrule => by simp [h.paths rule hrule],
        List.nil_append]

/-- The fields of the server when the options arrive. -/
theorem Arrive.toPreserve
    {opts : Options} {operand : Str} {parsed : ServerFlags × List Str}
    (h : opts.Arrive scaled operand parsed) :
  parsed.1.toPreserve =
    { uid := opts.owner, gid := opts.group, times := opts.times, devices := opts.devices }
  := by
  have howner := h.flags _ (List.mem_of_getElem? (i := 3) rfl)
  have hgroup := h.flags _ (List.mem_of_getElem? (i := 4) rfl)
  have htimes := h.flags _ (List.mem_of_getElem? (i := 5) rfl)
  have hdevices := h.flags _ (List.mem_of_getElem? (i := 6) rfl)
  rw [ServerFlags.toPreserve]
  exact Preserve.mk.injEq .. ▸ ⟨howner, hgroup, htimes, hdevices⟩

/-- The options arrive when no rule is taken for an argument that changes them. The devices of
the client are not among its fields, so the fields are the same when there are none. -/
theorem options_arrive_iff
    (opts : Options) (isSender : Bool) (operand : Str) (hoperand : operand.head? ≠ some '-') :
  (opts.expandArchive.Arrive scaled operand
      (parseArgv scaled (opts.expandArchive.serverArgv isSender operand)) ↔
    opts.expandArchive.RulesPass scaled) ∧
  (opts.expandArchive.Arrive scaled operand
      (parseArgv scaled (opts.expandArchive.serverArgv isSender operand)) ∧
    (parseArgv scaled (opts.expandArchive.serverArgv isSender operand)).1.toPreserve =
      opts.expandArchive.toPreserve ↔
    opts.expandArchive.RulesPass scaled ∧ opts.expandArchive.devices = false)
  := by
  have hpath : isPath operand = true := by
    unfold isPath
    split
    · cases hoperand rfl
    · rfl
  have hiff := arrive_iff scaled opts isSender hpath
  refine ⟨hiff, ?_⟩
  rw [← hiff]
  apply and_congr_right
  intro h
  rw [h.toPreserve, toPreserve, Preserve.mk.injEq]
  have harchive := expandArchive_archive opts
  generalize opts.expandArchive = opts at harchive
  cases hbundle : opts.archive with
  | true =>
      obtain ⟨-, htimes, hgroup, howner, hdevices⟩ := harchive hbundle
      simp [htimes, hgroup, howner, hdevices]
  | false => simp

/-- The options of a client that sends the owners: the rule sets nothing more. -/
theorem options_arrive_owner :
  let scaled : Str → ℤ → Option ℤ := fun s unit =>
    if s = "10".toList then some (10 * unit) else none
  let opts : Options :=
    { owner := true, maxSize := some "10k".toList, filter := ["- *.o".toList] }
  opts.expandArchive.Arrive scaled "dir".toList
    (parseArgv scaled (opts.expandArchive.serverArgv false "dir".toList))
  := by
  intro scaled opts
  apply (options_arrive_iff scaled opts false "dir".toList (by decide)).1.2
  refine ⟨?_, ?_, ?_, ?_, ?_, ?_⟩ <;> decide

/-- The rule is taken for a bundle of letters, so the server of a client that does not send the
owners reads them. -/
theorem options_not_arrive :
  let opts : Options := { filter := ["- *.o".toList] }
  ¬ opts.expandArchive.Arrive (fun _ _ => none) "dir".toList
    (parseArgv (fun _ _ => none) (opts.expandArchive.serverArgv false "dir".toList))
  := by
  intro opts h
  have hcompared := List.mem_of_getElem? (l := comparedFlags) (i := 3) rfl
  have hset := (isSetBy_compared (fun _ _ => none) hcompared).parseArgv
    (opts.expandArchive.serverArgv false "dir".toList)
  have howner := hset.2 ⟨"- *.o".toList, by decide, by decide⟩
  rw [h.flags _ hcompared] at howner
  cases howner

end Options
