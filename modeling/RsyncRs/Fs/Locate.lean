import Mathlib.Data.List.Basic
import RsyncRs.Fs.Path
import RsyncRs.Protocol.Types
import RsyncRs.Utf8

/-!
# Where paths lead

A path leads from the root or from the working directory through the directories that its parts
name to the place of a file: the names on the way there from the root.
-/

/-- The names on the way from the root. -/
abbrev Location := List Name

namespace FsPath

/-- Follow one part of a path. -/
def enter (place : Location) (part : FsPath) : Location :=
  if part = [] ∨ part = [dot] then place
  else if part = [dot, dot] then place.dropLast
  else place ++ [part]

/-- Follow the parts of a path. -/
def walk (place : Location) (p : FsPath) : Location :=
  (p.splitOn sep).foldl enter place

/-- Where a path leads when `cwd` is the working directory. -/
def locate (cwd : Location) (p : FsPath) : Location :=
  walk (if isAbsolute p then [] else cwd) p

@[simp]
theorem enter_nil
    (place : Location) :
  enter place [] = place
  := if_pos (Or.inl rfl)

@[simp]
theorem enter_dot
    (place : Location) :
  enter place [dot] = place
  := if_pos (Or.inr rfl)

/-- A path without separators is one part. -/
theorem walk_part
    (place : Location) {part : FsPath} (h : sep ∉ part) :
  walk place part = enter place part
  := by
  unfold walk
  rw [List.splitOn_eq_singleton h]
  rfl

@[simp]
theorem walk_nil
    (place : Location) :
  walk place [] = place
  := by
  rw [walk_part place (List.not_mem_nil), enter_nil]

theorem walk_sep
    (place : Location) (a b : FsPath) :
  walk place (a ++ sep :: b) = walk (walk place a) b
  := by
  unfold walk
  rw [List.splitOn_append_cons_self, List.foldl_append]

theorem walk_cons_sep
    (place : Location) (b : FsPath) :
  walk place (sep :: b) = walk place b
  := by
  rw [← List.nil_append (sep :: b), walk_sep, walk_nil]

/-! ### Names -/

/-- The part names a file. -/
structure IsName (name : Name) : Prop where
  nonempty : name ≠ []
  noSep : sep ∉ name
  notDot : name ≠ [dot]
  notDots : name ≠ [dot, dot]

theorem enter_name
    (place : Location) {name : Name} (h : IsName name) :
  enter place name = place ++ [name]
  := by
  unfold enter
  rw [if_neg (not_or_intro h.nonempty h.notDot), if_neg h.notDots]

/-- The string of a name is a name. -/
theorem IsName.lossy
    {name : Name} (h : IsName name) :
  IsName (fromUtf8Lossy name)
  := by
  have hascii : ∀ bs : Name, (∀ b ∈ bs, b < 0x80) → fromUtf8Lossy name = bs → name = bs := by
    rintro bs hbs rfl
    exact (fromUtf8Lossy_of_isUtf8 (isUtf8_of_lossy_ascii hbs)).symm
  refine ⟨fun heq => h.nonempty (hascii _ (by simp) heq), ?_,
    fun heq => h.notDot (hascii _ (by decide +kernel) heq),
    fun heq => h.notDots (hascii _ (by decide +kernel) heq)⟩
  intro hsep
  rcases mem_fromUtf8Lossy hsep with hsep | hsep
  · exact h.noSep hsep
  · exact absurd hsep (by decide)

/-- The path of names below some directory. -/
def ofNames (names : List Name) : FsPath :=
  [sep].intercalate names

theorem walk_ofNames
    (place : Location) {names : List Name} (h : ∀ name ∈ names, IsName name) :
  walk place (ofNames names) = place ++ names
  := by
  induction names generalizing place with
  | nil => rw [ofNames, List.intercalate_nil, walk_nil, List.append_nil]
  | cons name names ih =>
      have hname := h name List.mem_cons_self
      have hnames : ∀ n ∈ names, IsName n := fun n hn => h n (List.mem_cons_of_mem _ hn)
      cases names with
      | nil =>
          rw [ofNames, List.intercalate_singleton, walk_part place hname.noSep,
            enter_name place hname]
      | cons next names =>
          rw [ofNames, List.intercalate_cons_cons, List.append_assoc, List.singleton_append,
            walk_sep, walk_part place hname.noSep, enter_name place hname, ← ofNames, ih _ hnames,
            List.append_assoc, List.singleton_append]

/-! ### Joined paths -/

theorem isAbsolute_append
    {base : FsPath} (hne : base ≠ []) (p : FsPath) :
  isAbsolute (base ++ p) = isAbsolute base
  := by
  unfold isAbsolute
  rw [List.head?_append_of_ne_nil _ hne]

/-- A relative path leads on from where the path before it leads. -/
theorem locate_join
    (cwd : Location) (base : FsPath) {p : FsPath} (h : isAbsolute p = false) :
  locate cwd (base.join p) = walk (locate cwd base) p
  := by
  unfold join locate
  rw [if_neg (Bool.eq_false_iff.mp h)]
  by_cases hnil : base = []
  · rw [if_pos (Or.inl hnil), hnil, List.nil_append, h]
    simp [isAbsolute]
  · by_cases hend : base.getLast? = some sep
    · obtain ⟨b, rfl⟩ := List.getLast?_eq_some_iff.mp hend
      rw [if_pos (Or.inr hend), isAbsolute_append hnil, List.append_assoc, List.singleton_append,
        walk_sep, walk_sep, walk_nil]
    · rw [if_neg (not_or_intro hnil hend), isAbsolute_append hnil, walk_sep]

theorem isAbsolute_ofNames
    {names : List Name} (h : ∀ name ∈ names, IsName name) :
  isAbsolute (ofNames names) = false
  := by
  cases names with
  | nil => rfl
  | cons name names =>
      have hname := h name List.mem_cons_self
      obtain ⟨b, bs, rfl⟩ := List.exists_cons_of_ne_nil hname.nonempty
      have hb : b ≠ sep := fun hb => hname.noSep (hb ▸ List.mem_cons_self)
      cases names with
      | nil => simp [ofNames, isAbsolute, hb]
      | cons next names => simp [ofNames, isAbsolute, hb, List.intercalate_cons_cons]

theorem ofNames_eq_nil_iff
    {names : List Name} (h : ∀ name ∈ names, IsName name) :
  ofNames names = [] ↔ names = []
  := by
  constructor
  · intro heq
    have hwalk := walk_ofNames [] h
    rw [heq, walk_nil, List.nil_append] at hwalk
    exact hwalk.symm
  · rintro rfl
    rfl

theorem ofNames_concat
    {names : List Name} (hne : names ≠ []) (name : Name) :
  ofNames (names ++ [name]) = ofNames names ++ sep :: name
  := by
  induction names with
  | nil => exact absurd rfl hne
  | cons first names ih =>
      cases names with
      | nil => simp [ofNames, List.intercalate_cons_cons]
      | cons next names =>
          have ih' := ih (List.cons_ne_nil _ _)
          simp only [ofNames, List.cons_append, List.intercalate_cons_cons] at ih' ⊢
          simp only [ih', List.append_assoc]

/-- Names lead on from where the path before them leads. -/
theorem locate_join_ofNames
    (cwd : Location) (base : FsPath) {names : List Name} (h : ∀ name ∈ names, IsName name) :
  locate cwd (base.join (ofNames names)) = locate cwd base ++ names
  := by
  rw [locate_join cwd base (isAbsolute_ofNames h), walk_ofNames _ h]

/-! ### Parents -/

theorem beforeLastPart_of_not_mem
    {p : FsPath} (h : sep ∉ p) :
  beforeLastPart p = []
  := by
  have hall : p.reverse.dropWhile (· ≠ sep) = [] := by
    rw [List.dropWhile_eq_nil_iff]
    intro b hb
    rw [decide_eq_true_eq]
    rintro rfl
    exact h (List.mem_reverse.mp hb)
  rw [beforeLastPart, hall]
  rfl

theorem lastPart_of_not_mem
    {p : FsPath} (h : sep ∉ p) :
  lastPart p = p
  := by
  have hall : p.reverse.takeWhile (· ≠ sep) = p.reverse := by
    rw [List.takeWhile_eq_self_iff]
    intro b hb
    rw [decide_eq_true_eq]
    rintro rfl
    exact h (List.mem_reverse.mp hb)
  rw [lastPart, hall, List.reverse_reverse]

/-- The last part of a path is followed last. -/
theorem walk_lastPart
    (place : Location) (p : FsPath) :
  walk place p = enter (walk place (beforeLastPart p)) (lastPart p)
  := by
  by_cases h : sep ∈ p
  · nth_rewrite 1 [← beforeLastPart_append h]
    rw [walk_sep, walk_part _ (sep_not_mem_lastPart p)]
  · rw [beforeLastPart_of_not_mem h, lastPart_of_not_mem h, walk_nil, walk_part place h]

/-- The parts at the end of a path that name nothing lead nowhere else. -/
theorem walk_trimBody
    (place : Location) (body : FsPath) :
  walk place (trimBody body) = walk place body
  := by
  induction body using trimBody.induct with
  | case1 => rw [trimBody, if_pos rfl]
  | case2 body hne hlast ih =>
      rw [trimBody, if_neg hne, if_pos hlast, ih, walk_lastPart place body]
      rcases hlast with h | h
      · rw [h, enter_nil]
      · rw [h, enter_dot]
  | case3 body hne hlast => rw [trimBody, if_neg hne, if_neg hlast]

/-- What is left of a path that is trimmed ends in a part that names something. -/
theorem lastPart_trimBody
    (body : FsPath) (h : trimBody body ≠ []) :
  lastPart (trimBody body) ≠ [] ∧ lastPart (trimBody body) ≠ [dot]
  := by
  induction body using trimBody.induct with
  | case1 =>
      rw [trimBody, if_pos rfl] at h
      exact absurd rfl h
  | case2 body hne hlast ih =>
      rw [trimBody, if_neg hne, if_pos hlast] at h ⊢
      exact ih h
  | case3 body hne hlast =>
      rw [trimBody, if_neg hne, if_neg hlast]
      exact not_or.mp hlast

theorem prefix_beforeLastPart
    (p : FsPath) :
  beforeLastPart p <+: p
  := by
  by_cases h : sep ∈ p
  · exact ⟨_, beforeLastPart_append h⟩
  · rw [beforeLastPart_of_not_mem h]
    apply List.nil_prefix

theorem prefix_trimBody
    (body : FsPath) :
  trimBody body <+: body
  := by
  induction body using trimBody.induct with
  | case1 => exact ⟨[], by rw [trimBody, if_pos rfl, List.append_nil]⟩
  | case2 body hne hlast ih =>
      rw [trimBody, if_neg hne, if_pos hlast]
      apply ih.trans (prefix_beforeLastPart body)
  | case3 body hne hlast =>
      exact ⟨[], by rw [trimBody, if_neg hne, if_neg hlast, List.append_nil]⟩

@[simp]
theorem walk_dot
    (place : Location) :
  walk place [dot] = place
  := by
  rw [walk_part place (by decide), enter_dot]

/-- Paths that start as `p` does are followed from the same place. -/
theorem locate_lead
    (cwd : Location) {p body : FsPath} (h : body <+: p.drop (lenBeforeBody p)) :
  locate cwd (p.take (lenBeforeBody p) ++ body) =
    walk (if isAbsolute p then [] else cwd) body
  := by
  by_cases habs : isAbsolute p = true
  · obtain ⟨b, rfl⟩ : ∃ b, p = sep :: b := by
      unfold isAbsolute at habs
      rw [decide_eq_true_eq] at habs
      exact List.head?_eq_some_iff.mp habs
    have hlead : lenBeforeBody (sep :: b) = 1 := if_pos (Or.inl habs)
    rw [hlead, if_pos habs, List.take_succ_cons, List.take_zero, List.singleton_append, locate,
      walk_cons_sep]
    rfl
  · by_cases hcur : includesCurDir p = true
    · have hlead : lenBeforeBody p = 1 := if_pos (Or.inr hcur)
      obtain ⟨r, rfl, hr⟩ : ∃ r, p = dot :: r ∧ (r = [] ∨ ∃ t, r = sep :: t) := by
        simp only [includesCurDir, Bool.decide_or, Bool.or_eq_true, decide_eq_true_eq] at hcur
        match p, hcur with
        | [_], hcur => exact ⟨[], by simpa using hcur, Or.inl rfl⟩
        | a :: b :: t, hcur =>
            obtain ⟨rfl, rfl⟩ : a = dot ∧ b = sep := by simpa using hcur
            exact ⟨sep :: t, rfl, Or.inr ⟨t, rfl⟩⟩
      rw [hlead, List.drop_succ_cons, List.drop_zero] at h
      have hbody : body = [] ∨ ∃ t, body = sep :: t := by
        cases body with
        | nil => exact Or.inl rfl
        | cons b t =>
            right
            rcases hr with rfl | ⟨u, rfl⟩
            · cases List.prefix_nil.mp h
            · exact ⟨t, by rw [(List.cons_prefix_cons.mp h).1]⟩
      rw [hlead, if_neg habs, List.take_succ_cons, List.take_zero, List.singleton_append, locate]
      rcases hbody with rfl | ⟨t, rfl⟩
      · rw [walk_dot, walk_nil]
        rfl
      · rw [← List.singleton_append, walk_sep, walk_dot, walk_cons_sep]
        rfl
    · have hlead : lenBeforeBody p = 0 := if_neg (not_or_intro habs hcur)
      rw [hlead] at h ⊢
      rw [List.drop_zero] at h
      rw [if_neg habs, List.take_zero, List.nil_append, locate, if_neg]
      intro hbody
      obtain ⟨t, rfl⟩ := h
      have hne : body ≠ [] := by
        rintro rfl
        cases hbody
      exact habs (by rwa [isAbsolute_append hne])

/-- A path whose last component is a name leads to that name in the parent directory. -/
theorem locate_fileName
    (cwd : Location) {p : FsPath} {name : Name} (h : fileName p = some name) :
  IsName name ∧ ∃ q, parent p = some q ∧ locate cwd p = locate cwd q ++ [name]
  := by
  unfold fileName at h
  dsimp only at h
  split at h
  · cases h
  · next hname =>
    obtain ⟨hne, hdots⟩ := not_or.mp hname
    cases h
    obtain ⟨hnonempty, hdot⟩ := lastPart_trimBody _ hne
    have hisName : IsName (lastPart (trimBody (p.drop (lenBeforeBody p)))) :=
      ⟨hnonempty, sep_not_mem_lastPart _, hdot, hdots⟩
    refine ⟨hisName, p.take (lenBeforeBody p) ++
      trimBody (beforeLastPart (trimBody (p.drop (lenBeforeBody p)))), ?_, ?_⟩
    · unfold parent
      rw [if_pos hne]
    · have hprefix : trimBody (beforeLastPart (trimBody (p.drop (lenBeforeBody p)))) <+:
          p.drop (lenBeforeBody p) :=
        (prefix_trimBody _).trans ((prefix_beforeLastPart _).trans (prefix_trimBody _))
      have hall := locate_lead cwd (List.prefix_refl (p.drop (lenBeforeBody p)))
      rw [List.take_append_drop] at hall
      rw [locate_lead cwd hprefix, hall, walk_trimBody, ← walk_trimBody, walk_lastPart,
        enter_name _ hisName]

end FsPath
