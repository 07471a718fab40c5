import RsyncRs.Fs.Components

/-!
# Paths that stay inside a directory

A path that is joined to a directory leads to a place inside of it, unless it is absolute or has
components of a parent. So do its parent, when it has a name, and the paths with other names in the
same directory.
-/

namespace FsPath

variable {cwd place : Location} {root a b p q rest ext : FsPath} {name : Name}

/-- The path leads to the directory or to a place in it. -/
def Inside (cwd : Location) (root p : FsPath) : Prop :=
  locate cwd root <+: locate cwd p

/-- The parts of a path that lead on. -/
def partNames (p : FsPath) : List Name :=
  (p.splitOn sep).filter fun part => part ≠ [] ∧ part ≠ [dot]

/-- The path has no component of a parent. -/
def NoParent (p : FsPath) : Prop :=
  [dot, dot] ∉ p.splitOn sep

instance
    (p : FsPath) :
  Decidable (NoParent p)
  := inferInstanceAs (Decidable (_ ∉ _))

/-! ### Joined paths -/

theorem walk_of_noParent
    (place : Location) (h : NoParent p) :
  walk place p = place ++ partNames p
  := by
  unfold walk partNames
  unfold NoParent at h
  generalize p.splitOn sep = parts at h ⊢
  induction parts generalizing place with
  | nil => exact (List.append_nil place).symm
  | cons part parts ih =>
      obtain ⟨hpart, hparts⟩ := not_or.mp (mt List.mem_cons.mpr h)
      rw [List.foldl_cons, ih _ hparts]
      unfold enter
      by_cases hnil : part = [] ∨ part = [dot]
      · have hnot : ¬ (part ≠ [] ∧ part ≠ [dot]) := fun h => hnil.elim h.1 h.2
        rw [if_pos hnil, List.filter_cons_of_neg (by simpa using hnot)]
      · rw [if_neg hnil, if_neg (Ne.symm hpart),
          List.filter_cons_of_pos (by simpa using not_or.mp hnil), List.append_assoc]
        rfl

theorem locate_join_of_noParent
    (cwd : Location) (root : FsPath) (hrel : isAbsolute p = false) (h : NoParent p) :
  locate cwd (root.join p) = locate cwd root ++ partNames p
  := by
  rw [locate_join cwd root hrel, walk_of_noParent _ h]

theorem inside_join
    (cwd : Location) (root : FsPath) (hrel : isAbsolute p = false) (h : NoParent p) :
  Inside cwd root (root.join p)
  := ⟨_, (locate_join_of_noParent cwd root hrel h).symm⟩

/-- The names of the path are its last components. -/
theorem bodyComponents_of_noParent
    (h : NoParent p) :
  bodyComponents p = (partNames p).map .normal
  := by
  unfold bodyComponents partNames
  unfold NoParent at h
  generalize p.splitOn sep = parts at h ⊢
  induction parts with
  | nil => rfl
  | cons part parts ih =>
      obtain ⟨hpart, hparts⟩ := not_or.mp (mt List.mem_cons.mpr h)
      unfold ofPart
      by_cases hnil : part = [] ∨ part = [dot]
      · have hnot : ¬ (part ≠ [] ∧ part ≠ [dot]) := fun h => hnil.elim h.1 h.2
        rw [List.filterMap_cons, if_pos hnil, List.filter_cons_of_neg (by simpa using hnot)]
        exact ih hparts
      · rw [List.filterMap_cons, if_neg hnil, if_neg (Ne.symm hpart),
          List.filter_cons_of_pos (by simpa using not_or.mp hnil), List.map_cons]
        exact congrArg _ (ih hparts)

theorem bodyComponents_cons_sep
    (p : FsPath) :
  bodyComponents (sep :: p) = bodyComponents p
  := by
  rw [← List.nil_append (sep :: p), bodyComponents_sep, bodyComponents_nil, List.nil_append]

/-- What comes before the components with names has no names. -/
theorem bodyComponents_drop_lead
    (p : FsPath) :
  bodyComponents (p.drop (lenBeforeBody p)) = bodyComponents p
  := by
  unfold lenBeforeBody
  by_cases hlead : isAbsolute p ∨ includesCurDir p
  · rw [if_pos hlead]
    rcases hlead with habs | hcur
    · obtain ⟨r, rfl⟩ := List.head?_eq_some_iff.mp (of_decide_eq_true habs)
      rw [bodyComponents_cons_sep]
      rfl
    · have hdot : bodyComponents [dot] = [] := by decide +kernel
      rcases includesCurDir_cases hcur with rfl | ⟨r, rfl⟩
      · rw [hdot]
        rfl
      · have hcons : dot :: sep :: r = [dot] ++ sep :: r := rfl
        rw [hcons, bodyComponents_sep, hdot, List.nil_append]
        exact bodyComponents_cons_sep r
  · rw [if_neg hlead, List.drop_zero]

/-- A path whose last component is a name has a file name. -/
theorem fileName_of_last
    {cs : List Component} (h : bodyComponents p = cs ++ [.normal name]) :
  ∃ name', fileName p = some name'
  := by
  have hbody : bodyComponents (trimBody (p.drop (lenBeforeBody p))) = cs ++ [.normal name] := by
    rw [bodyComponents_trimBody, bodyComponents_drop_lead, h]
  unfold fileName
  dsimp only
  rw [if_neg]
  · exact ⟨_, rfl⟩
  rintro (hnil | hparent)
  · rw [hnil, bodyComponents_nil] at hbody
    simp at hbody
  · rw [bodyComponents_lastPart, hparent] at hbody
    have hlast := List.append_inj_right' hbody rfl
    cases hlast

theorem bodyComponents_join
    (root : FsPath) (hrel : isAbsolute p = false) :
  bodyComponents (root.join p) = bodyComponents root ++ bodyComponents p
  := by
  unfold join
  rw [if_neg (Bool.eq_false_iff.mp hrel)]
  by_cases hnil : root = []
  · rw [if_pos (Or.inl hnil), hnil, List.nil_append, bodyComponents_nil, List.nil_append]
  · by_cases hend : root.getLast? = some sep
    · obtain ⟨r, rfl⟩ := List.getLast?_eq_some_iff.mp hend
      rw [if_pos (Or.inr hend), List.append_assoc, List.singleton_append, bodyComponents_sep,
        bodyComponents_sep, bodyComponents_nil, List.append_nil]
    · rw [if_neg (not_or_intro hnil hend), bodyComponents_sep]

/-- The path leads to a place in the directory, and its last component is a name. -/
def Names (cwd : Location) (root p : FsPath) : Prop :=
  (∃ name, fileName p = some name) ∧ ∃ names ≠ [], locate cwd p = locate cwd root ++ names

theorem names_join
    (cwd : Location) (root : FsPath) (hrel : isAbsolute p = false) (h : NoParent p)
    (hne : partNames p ≠ []) :
  Names cwd root (root.join p)
  := by
  refine ⟨?_, partNames p, hne, locate_join_of_noParent cwd root hrel h⟩
  obtain ⟨init, name, hlast⟩ := (List.eq_nil_or_concat' (partNames p)).resolve_left hne
  have hbody : bodyComponents (root.join p) =
      (bodyComponents root ++ init.map .normal) ++ [.normal name] := by
    rw [bodyComponents_join root hrel, bodyComponents_of_noParent h, hlast, List.map_append,
      List.map_singleton, List.append_assoc]
  exact fileName_of_last hbody

theorem Names.inside
    (h : Names cwd root p) :
  Inside cwd root p
  := by
  obtain ⟨-, names, -, hlocate⟩ := h
  exact ⟨names, hlocate.symm⟩

/-- What a directory inside has is inside. -/
theorem Inside.join_name
    (h : Inside cwd root q) (hname : IsName name) :
  Inside cwd root (q.join name)
  := by
  have hnames : ∀ x ∈ [name], IsName x := by simpa using hname
  have hlocate := locate_join_ofNames cwd q hnames
  rw [ofNames, List.intercalate_singleton] at hlocate
  unfold Inside
  rw [hlocate]
  exact h.trans (List.prefix_append _ _)

/-- What is in the parent of a path with a name is inside of the directory. -/
theorem Names.parent
    (h : Names cwd root p) :
  ∃ q, FsPath.parent p = some q ∧ Inside cwd root q ∧
    ∀ name, IsName name → Inside cwd root (q.join name)
  := by
  obtain ⟨⟨name, hname⟩, names, hne, hlocate⟩ := h
  obtain ⟨-, q, hq, hlast⟩ := locate_fileName cwd hname
  obtain ⟨init, last, rfl⟩ := (List.eq_nil_or_concat' names).resolve_left hne
  have hinside : Inside cwd root q := by
    rw [hlocate, ← List.append_assoc] at hlast
    exact ⟨init, List.append_inj_left' hlast rfl⟩
  exact ⟨q, hq, hinside, fun name' hname' => hinside.join_name hname'⟩

/-! ### Trailing parts -/

/-- The end of a path that names nothing. -/
inductive Trails : FsPath → Prop
  | nil : Trails []
  | slash {t : FsPath} (h : Trails t) : Trails (t ++ [sep])
  | slashDot {t : FsPath} (h : Trails t) : Trails (t ++ [sep, dot])

theorem Trails.take
    (h : Trails rest) (n : ℕ) :
  Trails (rest.take n)
  := by
  induction h with
  | nil =>
      rw [List.take_nil]
      exact Trails.nil
  | @slash t h ih =>
      by_cases hn : n ≤ t.length
      · rw [List.take_append_of_le_length hn]
        exact ih
      · rw [List.take_of_length_le (by rw [List.length_append, List.length_singleton]; omega)]
        exact Trails.slash h
  | @slashDot t h ih =>
      by_cases hn : n ≤ t.length
      · rw [List.take_append_of_le_length hn]
        exact ih
      · by_cases hn' : n = t.length + 1
        · rw [hn', List.take_length_add_append]
          exact Trails.slash h
        · have hlong : (t ++ [sep, dot]).length ≤ n := by
            simp only [List.length_append, List.length_cons, List.length_nil]
            omega
          rw [List.take_of_length_le hlong]
          exact Trails.slashDot h

theorem lastPart_sep
    (a : FsPath) (hb : sep ∉ b) :
  lastPart (a ++ sep :: b) = b
  := by
  have hall : ∀ c ∈ b.reverse, decide (c ≠ sep) = true := by
    intro c hc
    rw [decide_eq_true_eq]
    rintro rfl
    exact hb (List.mem_reverse.mp hc)
  rw [lastPart, List.reverse_append, List.reverse_cons, List.append_assoc,
    List.takeWhile_append_of_pos hall, List.singleton_append, List.takeWhile_cons]
  simp

theorem beforeLastPart_sep
    (a : FsPath) (hb : sep ∉ b) :
  beforeLastPart (a ++ sep :: b) = a
  := by
  have hmem : sep ∈ a ++ sep :: b := List.mem_append_right a List.mem_cons_self
  have happend := beforeLastPart_append hmem
  rw [lastPart_sep a hb] at happend
  exact List.append_cancel_right happend

/-- The parts of a body that come after a name are trimmed. -/
theorem trimBody_name
    (ha : a = [] ∨ a.getLast? = some sep) (hname : IsName name) (h : Trails rest) :
  trimBody (a ++ name ++ rest) = a ++ name ∧ lastPart (a ++ name) = name
  := by
  have hlast : lastPart (a ++ name) = name := by
    rcases ha with rfl | ha
    · exact lastPart_of_not_mem hname.noSep
    · obtain ⟨b, rfl⟩ := List.getLast?_eq_some_iff.mp ha
      rw [List.append_assoc, List.singleton_append, lastPart_sep b hname.noSep]
  refine ⟨?_, hlast⟩
  have hname' : lastPart (a ++ name) ≠ [] ∧ lastPart (a ++ name) ≠ [dot] := by
    rw [hlast]
    exact ⟨hname.nonempty, hname.notDot⟩
  induction h with
  | nil =>
      have hne : a ++ name ≠ [] := fun h => hname.nonempty (List.append_eq_nil_iff.mp h).2
      rw [List.append_nil, trimBody, if_neg hne, if_neg (not_or_intro hname'.1 hname'.2)]
  | @slash t h ih =>
      rw [← List.append_assoc, trimBody, if_neg (by simp), lastPart_sep _ List.not_mem_nil,
        if_pos (Or.inl rfl), beforeLastPart_sep _ List.not_mem_nil]
      exact ih
  | @slashDot t h ih =>
      have hdot : sep ∉ [dot] := by decide
      rw [← List.append_assoc, trimBody, if_neg (by simp), lastPart_sep _ hdot,
        if_pos (Or.inr rfl), beforeLastPart_sep _ hdot]
      exact ih

theorem exists_trails
    (body : FsPath) (h : trimBody body ≠ []) :
  ∃ rest, Trails rest ∧ body = trimBody body ++ rest
  := by
  induction body using trimBody.induct with
  | case1 =>
      rw [trimBody, if_pos rfl] at h
      exact absurd rfl h
  | case2 body hne hlast ih =>
      rw [trimBody, if_neg hne, if_pos hlast] at h ⊢
      obtain ⟨rest, hrest, hbefore⟩ := ih h
      have hsep : sep ∈ body := by
        by_contra hsep
        rw [beforeLastPart_of_not_mem hsep, trimBody, if_pos rfl] at h
        exact h rfl
      have hbody := beforeLastPart_append hsep
      rcases hlast with hlast | hlast
      · refine ⟨rest ++ [sep], hrest.slash, ?_⟩
        rw [← List.append_assoc, ← hbefore]
        rw [hlast] at hbody
        exact hbody.symm
      · refine ⟨rest ++ [sep, dot], hrest.slashDot, ?_⟩
        rw [← List.append_assoc, ← hbefore]
        rw [hlast] at hbody
        exact hbody.symm
  | case3 body hne hlast =>
      rw [trimBody, if_neg hne, if_neg hlast]
      exact ⟨[], Trails.nil, (List.append_nil body).symm⟩

/-! ### Names at the end of a path -/

theorem locate_append_part
    (cwd : Location) (ha : a = [] ∨ a.getLast? = some sep) (hb : sep ∉ b) :
  locate cwd (a ++ b) = enter (locate cwd a) b
  := by
  rcases ha with rfl | ha
  · have hrel : isAbsolute b = false := by
      unfold isAbsolute
      rw [decide_eq_false_iff_not]
      exact fun h => hb (List.mem_of_mem_head? h)
    rw [List.nil_append, locate, hrel, if_neg Bool.false_ne_true, walk_part _ hb]
    rfl
  · obtain ⟨c, rfl⟩ := List.getLast?_eq_some_iff.mp ha
    have hlast : locate cwd (c ++ [sep]) =
        walk (if isAbsolute (c ++ [sep]) then [] else cwd) c := by
      rw [locate, walk_sep, walk_nil]
    rw [hlast, locate,
      isAbsolute_append (List.append_ne_nil_of_right_ne_nil c (List.cons_ne_nil _ _)),
      List.append_assoc, List.singleton_append, walk_sep, walk_part _ hb]

theorem locate_trails
    (cwd : Location) (hp : p ≠ []) (h : Trails rest) :
  locate cwd (p ++ rest) = locate cwd p
  := by
  rw [locate, isAbsolute_append hp, locate]
  induction h with
  | nil => rw [List.append_nil]
  | @slash t h ih => rw [← List.append_assoc, walk_sep, walk_nil, ih]
  | @slashDot t h ih => rw [← List.append_assoc, walk_sep, walk_dot, ih]

/-- A path that ends in a name: what comes before, the name, and what names nothing. -/
structure Ends (p a : FsPath) (name : Name) : Prop where
  isName : IsName name
  before : a = [] ∨ a.getLast? = some sep
  rest : ∃ rest, Trails rest ∧ p = a ++ name ++ rest

theorem Ends.locate
    (cwd : Location) (h : Ends p a name) :
  FsPath.locate cwd p = FsPath.locate cwd a ++ [name]
  := by
  obtain ⟨rest, hrest, rfl⟩ := h.rest
  have hne : a ++ name ≠ [] := fun heq => h.isName.nonempty (List.append_eq_nil_iff.mp heq).2
  rw [locate_trails cwd hne hrest, locate_append_part cwd h.before h.isName.noSep,
    enter_name _ h.isName]

theorem IsName.no_lead
    (hname : IsName name) :
  ¬ (isAbsolute ([] ++ name ++ rest) ∨ includesCurDir ([] ++ name ++ rest))
  := by
  obtain ⟨b, bs, rfl⟩ := List.exists_cons_of_ne_nil hname.nonempty
  have hb : b ≠ sep := fun hb => hname.noSep (hb ▸ List.mem_cons_self)
  rintro (habs | hcur)
  · simp [isAbsolute, hb] at habs
  · cases bs with
    | nil =>
        have hdot : b ≠ dot := fun hb => hname.notDot (hb ▸ rfl)
        simp [includesCurDir, hdot] at hcur
    | cons c bs =>
        have hc : c ≠ sep := by
          rintro rfl
          exact hname.noSep (List.mem_cons_of_mem b List.mem_cons_self)
        simp [includesCurDir, hc] at hcur

theorem Ends.trimRight
    (h : Ends p a name) :
  FsPath.fileName p = some name ∧ FsPath.trimRight p = a ++ name
  := by
  obtain ⟨rest, hrest, rfl⟩ := h.rest
  -- what comes before the name starts as the path does
  obtain ⟨c, hc, hlead, hbody⟩ : ∃ c, (c = [] ∨ c.getLast? = some sep) ∧
      (a ++ name ++ rest).take (lenBeforeBody (a ++ name ++ rest)) ++ c = a ∧
      (a ++ name ++ rest).drop (lenBeforeBody (a ++ name ++ rest)) = c ++ name ++ rest := by
    by_cases hlead : isAbsolute (a ++ name ++ rest) ∨ includesCurDir (a ++ name ++ rest)
    · rw [lenBeforeBody, if_pos hlead]
      cases a with
      | nil => exact absurd hlead h.isName.no_lead
      | cons d c =>
          refine ⟨c, ?_, rfl, rfl⟩
          cases c with
          | nil => exact Or.inl rfl
          | cons e c => exact Or.inr (h.before.resolve_left (List.cons_ne_nil d _))
    · rw [lenBeforeBody, if_neg hlead]
      exact ⟨a, h.before, rfl, rfl⟩
  obtain ⟨htrim, hlast⟩ := trimBody_name hc h.isName hrest
  constructor
  · unfold fileName
    dsimp only
    rw [hbody, htrim, hlast, if_neg]
    rintro (hnil | hdots)
    · exact h.isName.nonempty (List.append_eq_nil_iff.mp hnil).2
    · exact h.isName.notDots hdots
  · rw [FsPath.trimRight, hbody, htrim, ← List.append_assoc, hlead]

theorem exists_ends
    (h : fileName p = some name) :
  ∃ a, Ends p a name
  := by
  unfold fileName at h
  dsimp only at h
  split at h
  · cases h
  next hname =>
  obtain ⟨hne, hdots⟩ := not_or.mp hname
  cases h
  obtain ⟨hnonempty, hdot⟩ := lastPart_trimBody _ hne
  have hisName : IsName (lastPart (trimBody (p.drop (lenBeforeBody p)))) :=
    ⟨hnonempty, sep_not_mem_lastPart _, hdot, hdots⟩
  obtain ⟨rest, hrest, hbody⟩ := exists_trails _ hne
  have hp := List.take_append_drop (lenBeforeBody p) p
  generalize ht : trimBody (p.drop (lenBeforeBody p)) = t at *
  by_cases hsep : sep ∈ t
  · refine ⟨p.take (lenBeforeBody p) ++ (beforeLastPart t ++ [sep]), hisName, ?_, rest, hrest, ?_⟩
    · right
      rw [← List.append_assoc, List.getLast?_append]
      rfl
    · have happend := beforeLastPart_append hsep
      have hassoc : p.take (lenBeforeBody p) ++ (beforeLastPart t ++ [sep]) ++ lastPart t ++ rest =
          p.take (lenBeforeBody p) ++ ((beforeLastPart t ++ sep :: lastPart t) ++ rest) := by
        simp
      rw [hassoc, happend, ← hbody, hp]
  · rw [lastPart_of_not_mem hsep]
    refine ⟨p.take (lenBeforeBody p), lastPart_of_not_mem hsep ▸ hisName, ?_, rest, hrest, ?_⟩
    · by_cases habs : isAbsolute p = true
      · obtain ⟨r, rfl⟩ := List.head?_eq_some_iff.mp (of_decide_eq_true habs)
        right
        rw [lenBeforeBody, if_pos (Or.inl habs)]
        rfl
      by_cases hcur : includesCurDir p = true
      · -- what comes after the current directory starts with a separator
        rw [lenBeforeBody, if_pos (Or.inr hcur)] at hbody
        rcases includesCurDir_cases hcur with rfl | ⟨r, rfl⟩
        · obtain ⟨b, bs, rfl⟩ := List.exists_cons_of_ne_nil hne
          cases hbody
        · obtain ⟨b, bs, rfl⟩ := List.exists_cons_of_ne_nil hne
          cases hbody
          exact absurd List.mem_cons_self hsep
      · left
        rw [lenBeforeBody, if_neg (not_or_intro habs hcur), List.take_zero]
    · rw [List.append_assoc, ← hbody, hp]

/-! ### Other extensions -/

/-- A name is its stem, or the stem, a dot and an extension. -/
theorem stemOf_cases
    (name : FsPath) :
  stemOf name = name ∨ ∃ old, name = stemOf name ++ dot :: old ∧ stemOf name ≠ []
  := by
  unfold stemOf
  dsimp only
  split
  · exact Or.inl rfl
  next h =>
  obtain ⟨hdot, hbefore⟩ := not_or.mp h
  right
  refine ⟨(name.reverse.takeWhile (· ≠ dot)).reverse, ?_, hbefore⟩
  have hsplit := List.takeWhile_append_dropWhile (p := (· ≠ dot)) (l := name.reverse)
  cases hd : name.reverse.dropWhile (· ≠ dot) with
  | nil =>
      have hall := List.dropWhile_eq_nil_iff.mp hd dot (List.mem_reverse.mpr (not_not.mp hdot))
      simp at hall
  | cons c t =>
      have hc : c = dot := by
        have hne : name.reverse.dropWhile (· ≠ dot) ≠ [] := by
          rw [hd]
          exact List.cons_ne_nil c t
        have hhead := List.head_dropWhile_not (· ≠ dot) hne
        simpa only [hd, List.head_cons, decide_eq_false_iff_not, not_not] using hhead
      rw [hd, hc] at hsplit
      have hrev := congrArg List.reverse hsplit
      simpa using hrev.symm

theorem prefix_stemOf
    (name : FsPath) :
  stemOf name <+: name
  := by
  rcases stemOf_cases name with h | ⟨old, h, -⟩
  · exact ⟨[], by rw [List.append_nil, h]⟩
  · exact ⟨dot :: old, h.symm⟩

/-- A name with an extension that is not made of dots is a name. -/
theorem isName_extension
    {stem : FsPath} (hstem : sep ∉ stem) (hext : sep ∉ ext) (hletter : ∃ b ∈ ext, b ≠ dot) :
  IsName (stem ++ dot :: ext)
  := by
  obtain ⟨b, hb, hne⟩ := hletter
  have hmem : b ∈ stem ++ dot :: ext := List.mem_append_right _ (List.mem_cons_of_mem _ hb)
  refine ⟨?_, ?_, ?_, ?_⟩
  · simp
  · rw [List.mem_append, List.mem_cons, not_or, not_or]
    exact ⟨hstem, by decide, hext⟩
  · intro heq
    rw [heq, List.mem_singleton] at hmem
    exact hne hmem
  · intro heq
    rw [heq] at hmem
    simp only [List.mem_cons, List.not_mem_nil, or_false, or_self] at hmem
    exact hne hmem

theorem Ends.setExtension
    (h : Ends p a name) (hext : ext ≠ []) :
  FsPath.setExtension p ext = a ++ (stemOf name ++ dot :: ext)
  := by
  obtain ⟨hname, htrim⟩ := h.trimRight
  obtain ⟨t, ht⟩ := prefix_stemOf name
  have htake : (a ++ name).take ((a ++ name).length - name.length + (stemOf name).length) =
      a ++ stemOf name := by
    have hlength : (a ++ name).length - name.length + (stemOf name).length =
        a.length + (stemOf name).length := by
      rw [List.length_append]
      omega
    rw [hlength, List.take_length_add_append]
    nth_rewrite 2 [← ht]
    rw [List.take_left]
  rw [FsPath.setExtension, hname]
  dsimp only
  rw [htrim, htake, if_neg hext, List.append_assoc]

/-- Another extension makes another name in the same directory, unless all that is left of the name
are two dots. -/
theorem Ends.withExtension
    (h : Ends p a name) (hdots : stemOf (lastPart p) ≠ [dot]) (hext : sep ∉ ext)
    (hletter : ∃ b ∈ ext, b ≠ dot) :
  ∃ x, IsName x ∧ FsPath.withExtension p ext = a ++ x
  := by
  obtain ⟨hname, htrim⟩ := h.trimRight
  have hne : ext ≠ [] := by
    obtain ⟨b, hb, -⟩ := hletter
    exact List.ne_nil_of_mem hb
  have hstem : ∀ x, IsName x → IsName (stemOf x ++ dot :: ext) := fun x hx =>
    isName_extension (fun h => hx.noSep ((prefix_stemOf x).subset h)) hext hletter
  rcases stemOf_cases name with heq | ⟨old, heq, hnonempty⟩
  · have hnone : extension p = none := by
      rw [extension, hname]
      exact if_pos heq
    refine ⟨stemOf name ++ dot :: ext, hstem name h.isName, ?_⟩
    rw [FsPath.withExtension, hnone]
    exact h.setExtension hne
  · have hsome : extension p = some old := by
      have hlonger : stemOf name ≠ name := by
        intro hsame
        rw [hsame] at heq
        simpa using congrArg List.length heq
      have hdrop : name.drop ((stemOf name).length + 1) = old := by
        nth_rewrite 2 [heq]
        rw [List.drop_length_add_append]
        rfl
      rw [extension, hname]
      dsimp only
      rw [if_neg hlonger, hdrop]
    obtain ⟨rest, hrest, hp⟩ := h.rest
    -- what is kept of the path ends in the beginning of the name, or in the name
    obtain ⟨y, hy⟩ : ∃ y, Ends (p.take (p.length - old.length)) a y := by
      have hcut : p.take (p.length - old.length) =
          a ++ (stemOf name ++ dot :: (old ++ rest).take rest.length) := by
        have hall : p = a ++ (stemOf name ++ dot :: (old ++ rest)) := by
          rw [hp]
          nth_rewrite 1 [heq]
          simp
        have hlength : p.length - old.length =
            a.length + ((stemOf name).length + (rest.length + 1)) := by
          rw [hall]
          simp only [List.length_append, List.length_cons]
          omega
        rw [hlength]
        nth_rewrite 1 [hall]
        rw [List.take_length_add_append, List.take_length_add_append, List.take_succ_cons]
      rw [hcut]
      by_cases hle : rest.length ≤ old.length
      · refine ⟨stemOf name ++ dot :: old.take rest.length, ?_, h.before, [], Trails.nil, ?_⟩
        · have hsub : ∀ b ∈ stemOf name ++ dot :: old.take rest.length, b ∈ name := by
            intro b hb
            rw [heq]
            rcases List.mem_append.mp hb with hb | hb
            · exact List.mem_append_left _ hb
            · rcases List.mem_cons.mp hb with rfl | hb
              · exact List.mem_append_right _ List.mem_cons_self
              · exact List.mem_append_right _ (List.mem_cons_of_mem _ (List.mem_of_mem_take hb))
          obtain ⟨b, bs, hstemEq⟩ := List.exists_cons_of_ne_nil hnonempty
          refine ⟨by simp, fun hsep => h.isName.noSep (hsub sep hsep), ?_, ?_⟩
          · rw [hstemEq]
            simp
          · intro heq'
            have hlength := congrArg List.length heq'
            simp only [List.length_append, List.length_cons, List.length_take,
              List.length_nil] at hlength
            have hpos : 0 < (stemOf name).length := List.length_pos_iff.mpr hnonempty
            have hnil : rest = [] := List.length_eq_zero_iff.mp (by omega)
            have hlast : lastPart p = name := by
              rw [hp, hnil, List.append_nil]
              exact (trimBody_name h.before h.isName Trails.nil).2
            rw [hlast] at hdots
            rw [hnil, List.length_nil, List.take_zero] at heq'
            exact hdots (List.append_inj_left' heq' rfl)
        · rw [List.take_append_of_le_length hle, List.append_nil]
      · refine ⟨name, h.isName, h.before, rest.take (rest.length - old.length), hrest.take _, ?_⟩
        have hlength : rest.length = old.length + (rest.length - old.length) := by omega
        nth_rewrite 1 [hlength]
        rw [List.take_length_add_append]
        nth_rewrite 2 [heq]
        simp
    refine ⟨stemOf y ++ dot :: ext, hstem y hy.isName, ?_⟩
    rw [FsPath.withExtension, hsome]
    exact hy.setExtension hne

theorem lastPart_join
    (root : FsPath) (hrel : isAbsolute p = false) :
  lastPart (root.join p) = lastPart p
  := by
  have happend : ∀ q : FsPath, q = [] ∨ q.getLast? = some sep → lastPart (q ++ p) = lastPart p := by
    intro q hq
    by_cases hsep : sep ∈ p
    · have hp := beforeLastPart_append hsep
      nth_rewrite 1 [← hp]
      rw [← List.append_assoc, lastPart_sep _ (sep_not_mem_lastPart p)]
    · rcases hq with rfl | hq
      · rfl
      · obtain ⟨r, rfl⟩ := List.getLast?_eq_some_iff.mp hq
        rw [List.append_assoc, List.singleton_append, lastPart_sep r hsep, lastPart_of_not_mem hsep]
  unfold join
  rw [if_neg (Bool.eq_false_iff.mp hrel)]
  split
  · next h => exact happend root h
  · have hlast := happend (root ++ [sep]) (Or.inr (by simp))
    rwa [List.append_assoc, List.singleton_append] at hlast

/-- A path with another extension leads to a place in the directory. -/
theorem Names.withExtension
    (h : Names cwd root p) (hdots : stemOf (lastPart p) ≠ [dot]) (hext : sep ∉ ext)
    (hletter : ∃ b ∈ ext, b ≠ dot) :
  Inside cwd root (FsPath.withExtension p ext)
  := by
  obtain ⟨⟨name, hname⟩, names, hne, hlocate⟩ := h
  obtain ⟨a, hends⟩ := exists_ends hname
  obtain ⟨x, hx, heq⟩ := hends.withExtension hdots hext hletter
  obtain ⟨init, last, rfl⟩ := (List.eq_nil_or_concat' names).resolve_left hne
  rw [hends.locate cwd, ← List.append_assoc] at hlocate
  rw [Inside, heq, locate_append_part cwd hends.before hx.noSep, enter_name _ hx,
    List.append_inj_left' hlocate rfl, List.append_assoc]
  exact List.prefix_append _ _

end FsPath
