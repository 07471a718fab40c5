import Mathlib.Data.List.DropRight
import RsyncRs.Fs.Path
import RsyncRs.Program.ByteSource
import RsyncRs.Utf8

/-!
# The arguments of a connection

A client of the daemon sends its arguments one after the other, each with a zero behind it, and
one more zero behind the last one. The server reads them byte by byte. It knows paths by the dot
before them and takes the name of the module off their start.
-/

/-- The bytes of an argument. -/
abbrev Arg := List UInt8

/-- The argument before the paths. -/
def dotArg : Arg := [dot]

/-- The path without the name of the module before it. -/
def stripModule (name : List UInt8) (s : Arg) : Arg :=
  let pre := name ++ [sep]
  if s = name ∨ s = pre.rdropWhile (· = sep) then
    dotArg
  else if pre <+: s then
    let rest := s.drop pre.length
    if rest ≠ [] then rest else dotArg
  else
    s

/-- The arguments that are read, the bytes of the next one, and whether the dot was among
them. -/
structure ArgState where
  args : List Arg := []
  cur : List UInt8 := []
  seenDot : Bool := false
deriving DecidableEq, Repr

/-- An argument ends. -/
def ArgState.endArg (name : List UInt8) (st : ArgState) : ArgState :=
  let s := fromUtf8Lossy st.cur
  let s := if st.seenDot then stripModule name s else s
  { args := st.args ++ [s], cur := [], seenDot := st.seenDot || s = dotArg }

/-- Read the arguments, one byte at a time. -/
def readArgs (name : List UInt8) (src : ByteSource) (st : ArgState) : List Arg × ByteSource :=
  if src.delivery 1 = 0 then
    (st.args, src.advance 0)
  else
    let rest := src.advance (src.delivery 1)
    let b := src.bytes.headD 0
    if b = 0 then
      if st.cur = [] then (st.args, rest) else readArgs name rest (st.endArg name)
    else
      readArgs name rest { st with cur := st.cur ++ [b] }
termination_by src.bytes.length
decreasing_by
  all_goals
    have hle := src.delivery_le_length 1
    rw [ByteSource.bytes_advance, List.length_drop]
    omega

/-! ### What is read -/

/-- The arguments in some bytes, up to the first empty one, and the bytes after it. -/
def splitArgs : List UInt8 → List UInt8 → List Arg × List UInt8
  | _, [] => ([], [])
  | cur, b :: bs =>
    if b = 0 then
      if cur = [] then ([], bs) else (cur :: (splitArgs [] bs).1, (splitArgs [] bs).2)
    else
      splitArgs (cur ++ [b]) bs

/-- The arguments with the paths among them stripped. -/
def moduleArgs (name : List UInt8) : Bool → List Arg → List Arg
  | _, [] => []
  | seenDot, a :: as =>
    let s := if seenDot then stripModule name a else a
    s :: moduleArgs name (seenDot || s = dotArg) as

/-- Reading depends only on the bytes. -/
theorem readArgs_eq
    (name : List UInt8) (src : ByteSource) (st : ArgState) :
  (readArgs name src st).1 = st.args ++
      moduleArgs name st.seenDot ((splitArgs st.cur src.bytes).1.map fromUtf8Lossy) ∧
    (readArgs name src st).2.bytes = (splitArgs st.cur src.bytes).2
  := by
  induction hn : src.bytes.length generalizing src st with
  | zero =>
      have hnil := List.length_eq_zero_iff.mp hn
      have hdelivery : src.delivery 1 = 0 := (src.delivery_eq_zero_iff 1).mpr (Or.inr hnil)
      rw [readArgs, if_pos hdelivery, hnil, splitArgs]
      simp [ByteSource.advance, hnil, moduleArgs]
  | succ n ih =>
      obtain ⟨b, bs, hbytes⟩ := List.exists_cons_of_length_eq_add_one hn
      have hdelivery : src.delivery 1 = 1 := by
        unfold ByteSource.delivery
        omega
      have hrest : (src.advance 1).bytes = bs := by
        rw [ByteSource.bytes_advance, hbytes]
        rfl
      have hlen : (src.advance 1).bytes.length = n := by
        rw [hbytes, List.length_cons] at hn
        rw [hrest]
        omega
      rw [readArgs, if_neg (by omega), hdelivery, hbytes, splitArgs]
      dsimp only [List.headD_cons]
      by_cases hb : b = 0
      · rw [if_pos hb, if_pos hb]
        by_cases hcur : st.cur = []
        · rw [if_pos hcur, if_pos hcur]
          exact ⟨by simp [moduleArgs], hrest⟩
        · obtain ⟨hargs, htail⟩ := ih (src.advance 1) (st.endArg name) hlen
          rw [if_neg hcur, if_neg hcur, hargs, htail, hrest]
          refine ⟨?_, rfl⟩
          simp only [ArgState.endArg, List.map_cons, moduleArgs, List.append_assoc,
            List.singleton_append]
      · obtain ⟨hargs, htail⟩ := ih (src.advance 1) { st with cur := st.cur ++ [b] } hlen
        rw [if_neg hb, if_neg hb, hargs, htail, hrest]
        exact ⟨rfl, rfl⟩

/-! ### What is sent -/

/-- The bytes of the arguments. -/
def argvBytes (args : List Arg) : List UInt8 :=
  args.flatMap (· ++ [0]) ++ [0]

/-- The arguments with the name of the module taken off those after the dot. -/
def clientArgs (name : List UInt8) (args : List Arg) : List Arg :=
  args.takeWhile (· ≠ dotArg) ++
    match args.dropWhile (· ≠ dotArg) with
    | [] => []
    | d :: after => d :: after.map (stripModule name)

theorem moduleArgs_true
    (name : List UInt8) (args : List Arg) :
  moduleArgs name true args = args.map (stripModule name)
  := by
  induction args with
  | nil => rfl
  | cons a as ih => rw [moduleArgs, Bool.true_or, ih, List.map_cons, if_pos rfl]

theorem moduleArgs_false
    (name : List UInt8) (args : List Arg) :
  moduleArgs name false args = clientArgs name args
  := by
  unfold clientArgs
  induction args with
  | nil => rfl
  | cons a as ih =>
      rw [moduleArgs]
      by_cases ha : a = dotArg
      · simp [ha, moduleArgs_true]
      · simp [ha, ih]

theorem length_moduleArgs
    (name : List UInt8) (seenDot : Bool) (args : List Arg) :
  (moduleArgs name seenDot args).length = args.length
  := by
  induction args generalizing seenDot with
  | nil => rfl
  | cons a as ih => rw [moduleArgs, List.length_cons, ih, List.length_cons]

/-- An argument that is sent is not empty and has no zero. -/
structure IsArg (a : Arg) : Prop where
  nonempty : a ≠ []
  noZero : 0 ∉ a

theorem splitArgs_append
    {a cur : List UInt8} (h : 0 ∉ a) (bs : List UInt8) :
  splitArgs cur (a ++ bs) = splitArgs (cur ++ a) bs
  := by
  induction a generalizing cur with
  | nil => rw [List.nil_append, List.append_nil]
  | cons b a ih =>
      have hb : b ≠ 0 := fun hb => h (hb ▸ List.mem_cons_self)
      rw [List.cons_append, splitArgs, if_neg hb,
        ih fun hmem => h (List.mem_cons_of_mem _ hmem), List.append_assoc,
        List.singleton_append]

/-- One argument is read after the other. -/
theorem splitArgs_arg
    {a : Arg} (ha : IsArg a) (bs : List UInt8) :
  splitArgs [] (a ++ 0 :: bs) = (a :: (splitArgs [] bs).1, (splitArgs [] bs).2)
  := by
  rw [splitArgs_append ha.noZero, List.nil_append, splitArgs, if_pos rfl, if_neg ha.nonempty]

theorem argvBytes_cons
    (a : Arg) (as : List Arg) (rest : List UInt8) :
  argvBytes (a :: as) ++ rest = a ++ 0 :: (argvBytes as ++ rest)
  := by
  simp [argvBytes]

/-- The arguments are read as they are sent. -/
theorem splitArgs_argvBytes
    {args : List Arg} (hargs : ∀ a ∈ args, IsArg a) (rest : List UInt8) :
  splitArgs [] (argvBytes args ++ rest) = (args, rest)
  := by
  induction args with
  | nil => simp [argvBytes, splitArgs]
  | cons a as ih =>
      rw [argvBytes_cons, splitArgs_arg (hargs a List.mem_cons_self),
        ih fun b hb => hargs b (List.mem_cons_of_mem _ hb)]

/-! ### Bytes that are missing -/

theorem length_splitArgs_lt
    (cur : List UInt8) {bs : List UInt8} (h : bs ≠ []) :
  (splitArgs cur bs).2.length < bs.length
  := by
  induction bs generalizing cur with
  | nil => exact absurd rfl h
  | cons b bs ih =>
      have hrest : ∀ cur, (splitArgs cur bs).2.length ≤ bs.length := by
        intro cur
        by_cases hbs : bs = []
        · rw [hbs, splitArgs]
        · exact (ih cur hbs).le
      rw [splitArgs, List.length_cons]
      split_ifs
      · exact Nat.lt_succ_self _
      · exact Nat.lt_succ_of_le (hrest [])
      · exact Nat.lt_succ_of_le (hrest _)

theorem drop_argvBytes_cons
    (a : Arg) (as : List Arg) (rest : List UInt8) (k : ℕ) :
  (argvBytes (a :: as) ++ rest).drop k =
    if k ≤ a.length then a.drop k ++ 0 :: (argvBytes as ++ rest)
    else (argvBytes as ++ rest).drop (k - a.length - 1)
  := by
  rw [argvBytes_cons]
  split
  · next h => rw [List.drop_append_of_le_length h]
  · next h =>
    obtain ⟨n, hn⟩ : ∃ n, k = a.length + (n + 1) := ⟨k - a.length - 1, by omega⟩
    rw [hn, ← List.drop_drop, List.drop_left, List.drop_succ_cons]
    congr 1
    omega

theorem isArg_drop
    {a : Arg} (ha : IsArg a) {k : ℕ} (hk : k < a.length) :
  IsArg (a.drop k)
  := by
  constructor
  · rw [ne_eq, List.drop_eq_nil_iff]
    omega
  · exact fun h => ha.noZero (List.mem_of_mem_drop h)

/-- When the first bytes are missing, no argument more is read than was sent, or something behind
the arguments is read too. -/
theorem splitArgs_drop_le
    {args : List Arg} (hargs : ∀ a ∈ args, IsArg a) (rest : List UInt8) (k : ℕ) :
  (splitArgs [] ((argvBytes args ++ rest).drop k)).1.length ≤ args.length ∨
    (splitArgs [] ((argvBytes args ++ rest).drop k)).2.length < rest.length
  := by
  induction args generalizing k with
  | nil =>
      cases k with
      | zero =>
          rw [List.drop_zero, splitArgs_argvBytes hargs]
          exact Or.inl (Nat.le_refl _)
      | succ k =>
          have hdrop : (argvBytes [] ++ rest).drop (k + 1) = rest.drop k := rfl
          rw [hdrop]
          by_cases hnil : rest.drop k = []
          · rw [hnil, splitArgs]
            exact Or.inl (Nat.le_refl _)
          · apply Or.inr
            apply (length_splitArgs_lt [] hnil).trans_le
            rw [List.length_drop]
            omega
  | cons a as ih =>
      have ha := hargs a List.mem_cons_self
      have has : ∀ b ∈ as, IsArg b := fun b hb => hargs b (List.mem_cons_of_mem _ hb)
      rw [drop_argvBytes_cons]
      by_cases hle : k ≤ a.length
      · rw [if_pos hle]
        rcases hle.lt_or_eq with hlt | rfl
        · rw [splitArgs_arg (isArg_drop ha hlt), splitArgs_argvBytes has]
          exact Or.inl (Nat.le_refl _)
        · rw [List.drop_length, List.nil_append, splitArgs, if_pos rfl, if_pos rfl]
          exact Or.inl (Nat.zero_le _)
      · rw [if_neg hle]
        rcases ih has (k - a.length - 1) with hargs' | hrest
        · exact Or.inl (hargs'.trans (Nat.le_succ _))
        · exact Or.inr hrest

/-- The number of bytes that may be missing although the same is read: there were no arguments
and nothing follows, or two bytes of each of one or two replacement characters are missing at the
start of the first argument. -/
def Harmless (lost : ℕ) (args : List Arg) (rest : List UInt8) : Prop :=
  lost = 0 ∨ args = [] ∧ rest = [] ∨
    ∃ a ∈ args.head?, lost = 2 ∧ replacement <+: a ∨ lost = 4 ∧ replacement ++ replacement <+: a

theorem map_fromUtf8Lossy
    {args : List Arg} (h : ∀ a ∈ args, isUtf8 a = true) :
  args.map fromUtf8Lossy = args
  := (List.map_congr_left fun a ha => fromUtf8Lossy_of_isUtf8 (h a ha)).trans (List.map_id' args)

/-- The arguments and what follows them are read although bytes are missing exactly when these
make no difference. -/
theorem splitArgs_drop_iff
    (name : List UInt8) {args : List Arg} (hargs : ∀ a ∈ args, IsArg a)
    (hutf8 : ∀ a ∈ args, isUtf8 a = true) (rest : List UInt8) (k : ℕ) :
  moduleArgs name false
        ((splitArgs [] ((argvBytes args ++ rest).drop k)).1.map fromUtf8Lossy) =
      clientArgs name args ∧
    (splitArgs [] ((argvBytes args ++ rest).drop k)).2 = rest ↔ Harmless k args rest
  := by
  rw [← moduleArgs_false]
  by_cases hk : k = 0
  · rw [hk, List.drop_zero, splitArgs_argvBytes hargs, map_fromUtf8Lossy hutf8]
    simp [Harmless]
  cases args with
  | nil =>
      obtain ⟨k, rfl⟩ := Nat.exists_eq_add_one_of_ne_zero hk
      have hdrop : (argvBytes [] ++ rest).drop (k + 1) = rest.drop k := rfl
      rw [hdrop]
      constructor
      · rintro ⟨-, hrest⟩
        refine Or.inr (Or.inl ⟨rfl, ?_⟩)
        by_cases hnil : rest.drop k = []
        · rw [hnil, splitArgs] at hrest
          exact hrest.symm
        · have hlt := length_splitArgs_lt [] hnil
          rw [hrest, List.length_drop] at hlt
          omega
      · rintro (h | ⟨-, rfl⟩ | ⟨a, ha, -⟩)
        · omega
        · rw [List.drop_nil, splitArgs]
          exact ⟨rfl, rfl⟩
        · cases ha
  | cons a as =>
      have ha := hargs a List.mem_cons_self
      have has : ∀ b ∈ as, IsArg b := fun b hb => hargs b (List.mem_cons_of_mem _ hb)
      have hutf8' : ∀ b ∈ as, isUtf8 b = true := fun b hb => hutf8 b (List.mem_cons_of_mem _ hb)
      have hharmless : Harmless k (a :: as) rest ↔
          k = 2 ∧ replacement <+: a ∨ k = 4 ∧ replacement ++ replacement <+: a := by
        simp [Harmless, hk]
      have hshort : (k = 2 ∧ replacement <+: a ∨ k = 4 ∧ replacement ++ replacement <+: a) →
          k < a.length := by
        rintro (⟨rfl, hpre⟩ | ⟨rfl, hpre⟩)
        · exact lt_of_lt_of_le (by decide) hpre.length_le
        · exact lt_of_lt_of_le (by decide) hpre.length_le
      rw [hharmless, drop_argvBytes_cons]
      by_cases hle : k ≤ a.length
      · rw [if_pos hle]
        rcases hle.lt_or_eq with hlt | rfl
        · -- the first argument is cut
          have hfirst := fromUtf8Lossy_drop_eq_iff (hutf8 a List.mem_cons_self) hlt
          rw [splitArgs_arg (isArg_drop ha hlt), splitArgs_argvBytes has, List.map_cons,
            map_fromUtf8Lossy hutf8', moduleArgs, moduleArgs, if_neg Bool.false_ne_true,
            if_neg Bool.false_ne_true]
          constructor
          · rintro ⟨hlist, -⟩
            exact (hfirst.mp (List.cons.inj hlist).1).resolve_left hk
          · intro h
            rw [hfirst.mpr (Or.inr h)]
            exact ⟨rfl, rfl⟩
        · -- nothing of the first argument is left
          rw [List.drop_length, List.nil_append, splitArgs, if_pos rfl, if_pos rfl]
          constructor
          · rintro ⟨hlist, -⟩
            cases hlist
          · intro h
            exact absurd (hshort h) (lt_irrefl _)
      · -- arguments are missing
        rw [if_neg hle]
        constructor
        · rintro ⟨hlist, hrest⟩
          have hlen := congrArg List.length hlist
          rw [length_moduleArgs, length_moduleArgs, List.length_map, List.length_cons] at hlen
          rcases splitArgs_drop_le has rest (k - a.length - 1) with hargs' | hrest'
          · omega
          · rw [hrest] at hrest'
            exact absurd hrest' (lt_irrefl _)
        · intro h
          exact absurd (hshort h).le hle
