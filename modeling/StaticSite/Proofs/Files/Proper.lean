import StaticSite.Files.Tree
import StaticSite.Proofs.Files.Names

/-!
# Proper paths

A path that was read from a text has no part that is empty, holds a slash, or says to stay. Such a
path is read again from its text, and its text is no longer than that of any path below it.
-/

namespace StaticSite

namespace Text

variable {c : Char} {s part : Text} {parts more : List Text}

theorem notMem_of_mem_fields (h : part ∈ fields c s) : c ∉ part := by
  induction s generalizing part with
  | nil =>
      rw [List.mem_singleton.mp h]
      exact List.not_mem_nil
  | cons a s ih =>
      rw [fields] at h
      split at h
      · rcases List.mem_cons.mp h with rfl | h
        · exact List.not_mem_nil
        · exact ih h
      · rename_i hne
        cases hfields : fields c s with
        | nil =>
            rw [hfields] at h
            rw [List.mem_singleton.mp h]
            simpa using Ne.symm hne
        | cons first rest =>
            rw [hfields] at h ih
            rcases List.mem_cons.mp h with rfl | h
            · rw [List.mem_cons, not_or]
              exact ⟨Ne.symm hne, ih List.mem_cons_self⟩
            · exact ih (List.mem_cons_of_mem _ h)

theorem join_append (hparts : parts ≠ []) (hmore : more ≠ []) :
    join [c] (parts ++ more) = join [c] parts ++ c :: join [c] more := by
  induction parts with
  | nil => exact absurd rfl hparts
  | cons part parts ih =>
      by_cases hempty : parts = []
      · subst hempty
        exact join_cons c part hmore
      · have hrest := List.append_ne_nil_of_right_ne_nil parts hmore
        rw [List.cons_append, join_cons c part hrest, join_cons c part hempty, ih hempty,
          List.append_assoc, List.cons_append]

theorem length_encodeUtf8_pos (h : s ≠ []) : 0 < (encodeUtf8 s).length := by
  obtain ⟨c, rest, rfl⟩ := List.exists_cons_of_ne_nil h
  rw [encodeUtf8, List.flatMap_cons, List.length_append, String.length_utf8EncodeChar]
  exact Nat.lt_of_lt_of_le (Char.utf8Size_pos c) (Nat.le_add_right _ _)

theorem length_encodeUtf8_le_append (s t : Text) :
    (encodeUtf8 s).length ≤ (encodeUtf8 (s ++ t)).length := by
  rw [encodeUtf8, encodeUtf8, List.flatMap_append, List.length_append]
  exact Nat.le_add_right _ _

end Text

namespace Path

open Text

/-- Each part of the path is a name or says to go up. -/
def IsProper (p : Path) : Prop := ∀ part ∈ p.parts, part ≠ [] ∧ '/' ∉ part ∧ part ≠ ['.']

instance : DecidablePred IsProper := fun p =>
  inferInstanceAs (Decidable (∀ part ∈ p.parts, part ≠ [] ∧ '/' ∉ part ∧ part ≠ ['.']))

variable {p q : Path} {s : Text} {parts : List Text}

theorem isProper_ofText (s : Text) : (ofText s).IsProper := by
  intro part hpart
  obtain ⟨hfield, hkept⟩ := List.mem_filter.mp hpart
  rw [Bool.and_eq_true] at hkept
  exact ⟨by simpa using hkept.1, notMem_of_mem_fields hfield, by simpa using hkept.2⟩

theorem IsProper.of_subset (h : p.IsProper) (hparts : ∀ part ∈ q.parts, part ∈ p.parts) :
    q.IsProper :=
  fun part hpart => h part (hparts part hpart)

theorem IsProper.below (h : p.IsProper) (hnames : ∀ name ∈ parts, IsName name) :
    (p.below parts).IsProper := by
  intro part hpart
  rcases List.mem_append.mp hpart with hpart | hpart
  · exact h part hpart
  · obtain ⟨hempty, hslash, -, hhere, -⟩ := hnames part hpart
    exact ⟨hempty, hslash, hhere⟩

theorem isAbsolute_ofText_iff : (ofText s).isAbsolute = true ↔ s.head? = some '/' := by
  have hanchor : (ofText s).anchor = anchorOf s := rfl
  rw [isAbsolute, decide_eq_true_iff, hanchor]
  cases s with
  | nil => simp [anchorOf]
  | cons c s =>
      by_cases hc : c = '/'
      · subst hc
        refine iff_of_true ?_ rfl
        rw [anchorOf, List.takeWhile_cons_of_pos rfl, List.length_cons]
        split <;> simp_all
      · refine iff_of_false (fun hrelative => hrelative ?_) (by simpa using hc)
        rw [anchorOf, List.takeWhile_cons_of_neg (by simpa using hc)]
        rfl

theorem isAbsolute_ofText_eq_false_iff :
    (ofText s).isAbsolute = false ↔ s.head? ≠ some '/' := by
  rw [Bool.eq_false_iff, ne_eq, isAbsolute_ofText_iff]

theorem child_of_isAbsolute (p : Path) {s : Text} (h : (ofText s).isAbsolute) :
    p.child s = ofText s :=
  if_pos h

theorem IsProper.child (h : p.IsProper) (s : Text) : (p.child s).IsProper := by
  change (if (ofText s).isAbsolute then ofText s
    else ⟨p.anchor, p.parts ++ (ofText s).parts⟩ : Path).IsProper
  split
  · exact isProper_ofText s
  · intro part hpart
    exact (List.mem_append.mp hpart).elim (h part) (isProper_ofText s part)

/-- Only the first part can make the text begin with a slash. -/
theorem exists_join_eq_cons (h : ∀ part ∈ parts, part ≠ [] ∧ '/' ∉ part) (hne : parts ≠ []) :
    ∃ c s, join ['/'] parts = c :: s ∧ c ≠ '/' := by
  obtain ⟨first, rest, rfl⟩ := List.exists_cons_of_ne_nil hne
  obtain ⟨hempty, hslash⟩ := h first List.mem_cons_self
  obtain ⟨c, tail, rfl⟩ := List.exists_cons_of_ne_nil hempty
  have hc : c ≠ '/' := fun hc => hslash (hc ▸ List.mem_cons_self)
  by_cases hrest : rest = []
  · subst hrest
    exact ⟨c, tail, rfl, hc⟩
  · exact ⟨c, _, join_cons '/' (c :: tail) hrest, hc⟩

theorem anchorOf_append {c : Char} (hc : c ≠ '/') (a : Anchor) (s : Text) :
    anchorOf (a.text ++ c :: s) = a := by
  cases a <;> simp [anchorOf, Anchor.text, hc]

theorem partsOf_append (a : Anchor) (s : Text) : partsOf (a.text ++ s) = partsOf s := by
  cases a <;> simp [partsOf, Anchor.text, fields]

theorem text_of_ne_nil (h : p.parts ≠ []) : p.text = p.anchor.text ++ join ['/'] p.parts := by
  rw [text, if_neg (by simp [h])]

/-- A proper path is what its text is read as. -/
theorem ofText_text (h : p.IsProper) : ofText p.text = p := by
  obtain ⟨anchor, parts⟩ := p
  by_cases hparts : parts = []
  · subst hparts
    cases anchor <;> decide
  · have hproper : ∀ part ∈ parts, part ≠ [] ∧ '/' ∉ part :=
      fun part hpart => ⟨(h part hpart).1, (h part hpart).2.1⟩
    obtain ⟨c, s, hjoin, hc⟩ := exists_join_eq_cons hproper hparts
    have hread : partsOf (join ['/'] parts) = parts := by
      rw [partsOf, fields_join hparts fun part hpart => (h part hpart).2.1, List.filter_eq_self]
      intro part hpart
      obtain ⟨hempty, -, hhere⟩ := h part hpart
      simp [hempty, hhere]
    rw [text_of_ne_nil hparts, ofText, partsOf_append, hread, hjoin, anchorOf_append hc]

theorem length_text_le_below (h : ∀ part ∈ parts, part ≠ [] ∧ '/' ∉ part) :
    (encodeUtf8 p.text).length ≤ (encodeUtf8 (p.below parts).text).length := by
  obtain ⟨anchor, first⟩ := p
  by_cases hparts : parts = []
  · subst hparts
    simp only [below, List.append_nil, Nat.le_refl]
  · have hne : first ++ parts ≠ [] := List.append_ne_nil_of_right_ne_nil first hparts
    have htext : (Path.below ⟨anchor, first⟩ parts).text =
        anchor.text ++ join ['/'] (first ++ parts) := text_of_ne_nil hne
    rw [htext]
    by_cases hfirst : first = []
    · subst hfirst
      cases anchor with
      | relative =>
          obtain ⟨c, s, hjoin, -⟩ := exists_join_eq_cons h hparts
          rw [List.nil_append, hjoin]
          exact length_encodeUtf8_pos (List.cons_ne_nil c s)
      | root => exact length_encodeUtf8_le_append _ _
      | doubleRoot => exact length_encodeUtf8_le_append _ _
    · rw [text_of_ne_nil hfirst, join_append hfirst hparts, ← List.append_assoc]
      exact length_encodeUtf8_le_append _ _

end Path

theorem Tree.tooLong_of_below {p : Path} {parts : List Text}
    (h : ∀ part ∈ parts, part ≠ [] ∧ '/' ∉ part) (hshort : tooLong (p.below parts) = false) :
    tooLong p = false := by
  rw [tooLong, decide_eq_false_iff_not, Nat.not_le] at hshort ⊢
  exact Nat.lt_of_le_of_lt (Path.length_text_le_below h) hshort

end StaticSite
