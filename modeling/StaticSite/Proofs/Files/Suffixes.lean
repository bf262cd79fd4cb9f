import StaticSite.Proofs.Files.Proper

/-!
# Names with a suffix

A suffix that is written behind a path stands behind the path's last name. A name can be cut at one
place only: what is cut off is the suffix that was written behind a name if that is a point with
something behind it and no other point.
-/

namespace StaticSite

namespace Text

variable {c : Char} {s t : Text}

theorem fields_append_of_notMem (h : c ∉ t) (s : Text) :
    ∃ lead last, fields c s = lead ++ [last] ∧ fields c (s ++ t) = lead ++ [last ++ t] := by
  induction s with
  | nil => exact ⟨[], [], rfl, fields_of_notMem h⟩
  | cons a s ih =>
      obtain ⟨lead, last, hfields, happend⟩ := ih
      by_cases ha : a = c
      · refine ⟨[] :: lead, last, ?_, ?_⟩
        · rw [fields, if_pos ha, hfields, List.cons_append]
        · rw [List.cons_append, fields, if_pos ha, happend, List.cons_append]
      · rw [List.cons_append, fields, fields, if_neg ha, if_neg ha, hfields, happend]
        cases lead with
        | nil => exact ⟨[], a :: last, rfl, rfl⟩
        | cons first lead => exact ⟨(a :: first) :: lead, last, rfl, rfl⟩

theorem fields_prepend_of_notMem (h : c ∉ t) (s : Text) :
    ∃ first rest, fields c s = first :: rest ∧ fields c (t ++ s) = (t ++ first) :: rest := by
  induction t with
  | nil =>
      obtain ⟨lead, last, hfields, -⟩ := fields_append_of_notMem (c := c) List.not_mem_nil s
      cases lead with
      | nil => exact ⟨last, [], hfields, hfields⟩
      | cons first lead => exact ⟨first, lead ++ [last], hfields, hfields⟩
  | cons a t ih =>
      rw [List.mem_cons, not_or] at h
      obtain ⟨first, rest, hfields, hprepend⟩ := ih h.2
      refine ⟨first, rest, hfields, ?_⟩
      rw [List.cons_append, fields, if_neg (Ne.symm h.1), hprepend]
      rfl

theorem startsWith_iff : startsWith t s ↔ ∃ rest, s = t ++ rest := by
  rw [startsWith, Option.isSome_iff_exists]
  exact exists_congr fun rest => after?_eq_some_iff

theorem startsWith_append (h : startsWith t s) (more : Text) : startsWith t (s ++ more) := by
  obtain ⟨rest, rfl⟩ := startsWith_iff.mp h
  exact startsWith_iff.mpr ⟨rest ++ more, List.append_assoc t rest more⟩

theorem endsWith_iff : endsWith t s ↔ ∃ lead, s = lead ++ t := by
  rw [endsWith, startsWith_iff]
  constructor
  · rintro ⟨rest, hrest⟩
    refine ⟨rest.reverse, ?_⟩
    rw [← s.reverse_reverse, hrest, List.reverse_append, List.reverse_reverse]
  · rintro ⟨lead, rfl⟩
    exact ⟨lead.reverse, List.reverse_append⟩

theorem endsWith_append (s t : Text) : endsWith t (s ++ t) := endsWith_iff.mpr ⟨s, rfl⟩

/-- Of two ends of one text the longer ends in the shorter. -/
theorem endsWith_or_endsWith {name : Text} (hs : endsWith s name) (ht : endsWith t name) :
    endsWith s t ∨ endsWith t s := by
  obtain ⟨lead, rfl⟩ := endsWith_iff.mp hs
  obtain ⟨lead', heq⟩ := endsWith_iff.mp ht
  rcases List.append_eq_append_iff.mp heq with ⟨more, -, hmore⟩ | ⟨more, -, hmore⟩
  · exact .inr (endsWith_iff.mpr ⟨more, hmore⟩)
  · exact .inl (endsWith_iff.mpr ⟨more, hmore⟩)

end Text

namespace Path

open Text

variable {p : Path} {s t : Text}

/-- What stays with the last name when it is written behind a path. -/
def IsEnding (t : Text) : Prop := t ≠ [] ∧ t ≠ ['.'] ∧ '/' ∉ t

instance (t : Text) : Decidable (IsEnding t) := inferInstanceAs (Decidable (_ ∧ _ ∧ _))

theorem anchorOf_append_of_notMem (ht : '/' ∉ t) (s : Text) : anchorOf (s ++ t) = anchorOf s := by
  have hrun : (s ++ t).takeWhile (· == '/') = s.takeWhile (· == '/') := by
    induction s with
    | nil =>
        cases t with
        | nil => rfl
        | cons c t =>
            have hc : c ≠ '/' := fun hc => ht (hc ▸ List.mem_cons_self)
            simp [hc]
    | cons c s ih =>
        by_cases hc : c = '/'
        · simp [hc, ih]
        · simp [hc]
  rw [anchorOf, anchorOf, hrun]

/-- The folder that a text leads to, and the name there, do not depend on the ending. -/
theorem exists_ofText_append (s : Text) :
    ∃ (folder : Path) (stem : Text), ∀ t, IsEnding t →
      ofText (s ++ t) = folder.below [stem ++ t] := by
  obtain ⟨lead, stem, hfields, -⟩ := fields_append_of_notMem (c := '/') (t := []) (by simp) s
  refine ⟨⟨anchorOf s, lead.filter fun part => !part.isEmpty && part != ['.']⟩, stem, ?_⟩
  rintro t ⟨hne, hpoint, hslash⟩
  obtain ⟨lead', stem', hfields', happend⟩ := fields_append_of_notMem hslash s
  obtain ⟨rfl, hstem⟩ := List.append_inj' (hfields'.symm.trans hfields) rfl
  obtain rfl : stem' = stem := List.singleton_inj.mp hstem
  have hempty : stem' ++ t ≠ [] := List.append_ne_nil_of_right_ne_nil stem' hne
  have hlast : stem' ++ t ≠ ['.'] := by
    intro hlast
    rcases List.append_eq_singleton_iff.mp hlast with ⟨-, ht⟩ | ⟨-, ht⟩
    · exact hpoint ht
    · exact hne ht
  have hparts : partsOf (s ++ t) = (lead'.filter fun part => !part.isEmpty && part != ['.']) ++
      [stem' ++ t] := by
    rw [partsOf, happend, List.filter_append]
    congr 1
    simp [hempty, hlast]
  rw [ofText, anchorOf_append_of_notMem hslash, hparts]
  rfl

theorem append_below (p q : Path) (parts : List Text) :
    p ++ q.below parts = (p ++ q).below parts := by
  have happend (q : Path) : p ++ q = if q.isAbsolute then q else ⟨p.anchor, p.parts ++ q.parts⟩ :=
    rfl
  have habsolute : (q.below parts).isAbsolute = q.isAbsolute := rfl
  rw [happend, happend, habsolute]
  split
  · rfl
  · simp [below, List.append_assoc]

theorem exists_child_append (p : Path) (s : Text) :
    ∃ (folder : Path) (stem : Text), ∀ t, IsEnding t →
      p.child (s ++ t) = folder.below [stem ++ t] := by
  obtain ⟨folder, stem, h⟩ := exists_ofText_append s
  refine ⟨p ++ folder, stem, fun t ht => ?_⟩
  rw [child, h t ht, append_below]

/-- Before the last name of a path, its text is empty or ends in a slash. -/
theorem exists_text_below_name (folder : Path) :
    ∃ lead : Text, (∀ c ∈ lead.getLast?, c = '/') ∧
      ∀ name, (folder.below [name]).text = lead ++ name := by
  have hne (name : Text) : (folder.below [name]).parts ≠ [] := by simp
  by_cases hparts : folder.parts = []
  · refine ⟨folder.anchor.text, fun c hc => ?_, fun name => ?_⟩
    · cases hanchor : folder.anchor <;> rw [hanchor] at hc
      · cases hc
      all_goals exact (Option.some.inj hc).symm
    · rw [text_of_ne_nil (hne name), parts_below, hparts]
      rfl
  · refine ⟨folder.anchor.text ++ (join ['/'] folder.parts ++ ['/']), by simp, fun name => ?_⟩
    rw [text_of_ne_nil (hne name), parts_below, join_append hparts (List.cons_ne_nil name [])]
    simp [below, join]

theorem endsWith_below_name (ht : '/' ∉ t) (folder : Path) (name : Text) :
    endsWith t (folder.below [name]).text ↔ endsWith t name := by
  obtain ⟨lead, hlead, htext⟩ := exists_text_below_name folder
  rw [htext, endsWith_iff, endsWith_iff]
  constructor
  · rintro ⟨rest, hrest⟩
    rcases List.append_eq_append_iff.mp hrest with ⟨more, -, hname⟩ | ⟨more, hmore, hsuffix⟩
    · exact ⟨more, hname⟩
    · rcases List.eq_nil_or_concat more with rfl | ⟨init, c, rfl⟩
      · exact ⟨[], hsuffix.symm⟩
      · have hc : c = '/' := hlead c (by simp [hmore])
        exact absurd (by simp [hsuffix, hc]) ht
  · rintro ⟨rest, rfl⟩
    exact ⟨lead ++ rest, (List.append_assoc lead rest t).symm⟩

theorem exists_text_child_append (p : Path) (ht : IsEnding t) (s : Text) :
    ∃ lead, (p.child (s ++ t)).text = lead ++ t := by
  obtain ⟨folder, stem, hchild⟩ := exists_child_append p s
  obtain ⟨lead, -, htext⟩ := exists_text_below_name folder
  rw [hchild t ht, htext]
  exact ⟨lead ++ stem, (List.append_assoc lead stem t).symm⟩

/-! ## Cutting a suffix off -/

variable {name stem extension : Text}

theorem exists_last_point (h : '.' ∈ name) :
    ∃ stem extension, '.' ∉ extension ∧ name = stem ++ '.' :: extension := by
  obtain ⟨last, first, hreverse, hlast⟩ := List.eq_append_cons_of_mem (List.mem_reverse.mpr h)
  refine ⟨first.reverse, last.reverse, by simpa using hlast, ?_⟩
  rw [← List.reverse_reverse name, hreverse]
  simp

theorem takeWhile_point (h : '.' ∉ extension) {lead : Text} (hlead : ∀ c ∈ lead.head?, c = '.') :
    ((extension.reverse ++ lead).takeWhile (· != '.')).reverse = extension := by
  have hrun : ∀ c ∈ extension.reverse, (c != '.') = true := by
    intro c hc
    rw [bne_iff_ne]
    rintro rfl
    exact h (List.mem_reverse.mp hc)
  have hstop : ∀ c ∈ lead.head?, (c != '.') = false := fun c hc => by simp [hlead c hc]
  rw [(takeWhile_append_of_head hrun hstop).1, List.reverse_reverse]

/-- A name is cut before its last point, unless nothing stands on one side of it. -/
theorem splitSuffix_append (h : '.' ∉ extension) (stem : Text) :
    splitSuffix (stem ++ '.' :: extension) =
      if extension = [] ∨ stem = [] then (stem ++ '.' :: extension, [])
      else (stem, '.' :: extension) := by
  have hreverse : (stem ++ '.' :: extension).reverse =
      extension.reverse ++ '.' :: stem.reverse := by simp
  have hread : ((stem ++ '.' :: extension).reverse.takeWhile (· != '.')).reverse = extension := by
    rw [hreverse]
    exact takeWhile_point h (by simp)
  have hlength : (stem ++ '.' :: extension).length - extension.length - 1 = stem.length := by
    rw [List.length_append, List.length_cons]
    omega
  simp only [splitSuffix, hread, hlength, List.take_left, Bool.or_eq_true, List.isEmpty_iff]

theorem splitSuffix_of_notMem (h : '.' ∉ name) : splitSuffix name = (name, []) := by
  have hempty : ∀ c ∈ ([] : Text).head?, c = '.' := by simp
  have hread := takeWhile_point h hempty
  rw [List.append_nil] at hread
  simp [splitSuffix, hread]

/-- Nothing is lost when a name is cut. -/
theorem splitSuffix_join (name : Text) : (splitSuffix name).1 ++ (splitSuffix name).2 = name := by
  by_cases hmem : '.' ∈ name
  · obtain ⟨stem, extension, hpoint, rfl⟩ := exists_last_point hmem
    rw [splitSuffix_append hpoint]
    split
    · exact List.append_nil _
    · rfl
  · rw [splitSuffix_of_notMem hmem]
    exact List.append_nil name

/-- A suffix that a name can be cut at: a point with something behind it, and no other point. -/
def IsExtension (s : Text) : Prop := ∃ rest, s = '.' :: rest ∧ rest ≠ [] ∧ '.' ∉ rest

theorem suffix_append {s : Text} (hs : IsExtension s) (hstem : stem ≠ []) :
    suffix (stem ++ s) = s := by
  obtain ⟨rest, rfl, hne, hpoint⟩ := hs
  rw [suffix, splitSuffix_append hpoint, if_neg (not_or.mpr ⟨hne, hstem⟩)]

theorem slashed_dropSuffix (lead : List Text) (name : Text) :
    slashed (dropSuffix (lead ++ [name])) ++ suffix name = slashed (lead ++ [name]) := by
  have hdrop : dropSuffix (lead ++ [name]) = lead ++ [(splitSuffix name).1] := by
    simp [dropSuffix]
  have hname : (splitSuffix name).1 ++ suffix name = name := splitSuffix_join name
  rw [hdrop, slashed_of_ne_nil (by simp), slashed_of_ne_nil (by simp)]
  by_cases hlead : lead = []
  · subst hlead
    exact hname
  · rw [join_append hlead (List.cons_ne_nil _ []), join_append hlead (List.cons_ne_nil _ []),
      List.append_assoc, List.cons_append]
    exact congrArg (join ['/'] lead ++ '/' :: ·) hname

end Path

end StaticSite
