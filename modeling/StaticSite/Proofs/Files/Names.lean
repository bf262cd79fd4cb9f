import StaticSite.Files.Path

/-!
# Names and written paths

A path that is written from proper names and read again has the same parts.
-/

namespace StaticSite

namespace Text

variable {c a : Char} {s : Text} {parts : List Text}

theorem fields_of_notMem (h : c ∉ s) : fields c s = [s] := by
  induction s with
  | nil => rfl
  | cons a s ih =>
      rw [List.mem_cons, not_or] at h
      obtain ⟨ha, hs⟩ := h
      rw [fields, if_neg (Ne.symm ha), ih hs]

theorem fields_append (h : c ∉ s) (t : Text) : fields c (s ++ c :: t) = s :: fields c t := by
  induction s with
  | nil => rw [List.nil_append, fields, if_pos rfl]
  | cons a s ih =>
      rw [List.mem_cons, not_or] at h
      obtain ⟨ha, hs⟩ := h
      rw [List.cons_append, fields, if_neg (Ne.symm ha), ih hs]

theorem join_cons (c : Char) (s : Text) (hne : parts ≠ []) :
    join [c] (s :: parts) = s ++ c :: join [c] parts := by
  cases parts with
  | nil => exact absurd rfl hne
  | cons t ts => simp [join]

theorem fields_join (hne : parts ≠ []) (h : ∀ part ∈ parts, c ∉ part) :
    fields c (join [c] parts) = parts := by
  induction parts with
  | nil => exact absurd rfl hne
  | cons s parts ih =>
      by_cases hparts : parts = []
      · subst hparts
        exact fields_of_notMem (h s (by simp))
      · rw [join_cons c s hparts, fields_append (h s (by simp)),
          ih hparts fun part hpart => h part (by simp [hpart])]

theorem mem_join (h : a ∈ join [c] parts) : a = c ∨ ∃ part ∈ parts, a ∈ part := by
  induction parts with
  | nil => cases h
  | cons s parts ih =>
      by_cases hparts : parts = []
      · subst hparts
        exact .inr ⟨s, by simp, h⟩
      · rw [join_cons c s hparts, List.mem_append, List.mem_cons] at h
        rcases h with h | h | h
        · exact .inr ⟨s, by simp, h⟩
        · exact .inl h
        · refine (ih h).imp_right fun ⟨part, hpart, ha⟩ => ?_
          exact ⟨part, by simp [hpart], ha⟩

theorem mem_join_of_mem {part : Text} (hpart : part ∈ parts) (ha : a ∈ part) :
    a ∈ join [c] parts := by
  induction parts with
  | nil => cases hpart
  | cons s parts ih =>
      by_cases hparts : parts = []
      · subst hparts
        rw [List.mem_singleton.mp hpart] at ha
        exact ha
      · rw [join_cons c s hparts, List.mem_append, List.mem_cons]
        rcases List.mem_cons.mp hpart with rfl | hpart
        · exact .inl ha
        · exact .inr (.inr (ih hpart))

end Text

namespace Path

open Text

/-- A name that a file system can give to an entry of a folder. -/
def IsName (s : Text) : Prop :=
  s ≠ [] ∧ '/' ∉ s ∧ '\x00' ∉ s ∧ s ≠ ['.'] ∧ s ≠ ['.', '.']

instance : DecidablePred IsName := fun s =>
  inferInstanceAs (Decidable (s ≠ [] ∧ '/' ∉ s ∧ '\x00' ∉ s ∧ s ≠ ['.'] ∧ s ≠ ['.', '.']))

variable {s name : Text} {place rest : List Text}

theorem slashed_of_ne_nil (hne : place ≠ []) : slashed place = join ['/'] place := by
  rw [slashed, if_neg (by simpa using hne)]

theorem partsOf_slashed (hne : place ≠ []) (h : ∀ name ∈ place, IsName name) :
    partsOf (slashed place) = place := by
  rw [partsOf, slashed_of_ne_nil hne, fields_join hne fun name hname => (h name hname).2.1,
    List.filter_eq_self]
  intro name hname
  obtain ⟨hempty, -, -, hhere, -⟩ := h name hname
  simp [hempty, hhere]

theorem anchorOf_slashed (hne : place ≠ []) (h : ∀ name ∈ place, IsName name) :
    anchorOf (slashed place) = .relative := by
  rw [slashed_of_ne_nil hne]
  cases place with
  | nil => exact absurd rfl hne
  | cons name rest =>
      obtain ⟨hempty, hslash, -⟩ := h name (by simp)
      cases name with
      | nil => exact absurd rfl hempty
      | cons c name =>
          have hc : c ≠ '/' := fun hc => hslash (by simp [hc])
          have hjoin : ∃ more, join ['/'] ((c :: name) :: rest) = c :: more := by
            cases rest with
            | nil => exact ⟨name, rfl⟩
            | cons t ts => exact ⟨_, rfl⟩
          obtain ⟨more, hmore⟩ := hjoin
          rw [hmore, anchorOf, List.takeWhile_cons_of_neg (by simpa using hc)]
          rfl

theorem ofText_slashed (hne : place ≠ []) (h : ∀ name ∈ place, IsName name) :
    ofText (slashed place) = ⟨.relative, place⟩ := by
  rw [ofText, anchorOf_slashed hne h, partsOf_slashed hne h]

theorem child_slashed (p : Path) (hne : place ≠ []) (h : ∀ name ∈ place, IsName name) :
    p.child (slashed place) = p.below place := by
  rw [child, ofText_slashed hne h]
  rfl

theorem ofText_name (h : IsName name) : ofText name = ⟨.relative, [name]⟩ := by
  have hname : slashed [name] = name := rfl
  rw [← ofText_slashed (List.cons_ne_nil name []) (by simpa using h), hname]

theorem child_name (p : Path) (h : IsName name) : p.child name = p.below [name] := by
  rw [child, ofText_name h]
  rfl

theorem text_relative (hne : place ≠ []) : text ⟨.relative, place⟩ = slashed place := by
  rw [text, if_neg (by simp [hne]), slashed_of_ne_nil hne]
  rfl

theorem text_ofText_below (h : IsName name) (place : List Text) :
    ((ofText name).below place).text = slashed (name :: place) := by
  rw [ofText_name h]
  exact text_relative (by simp)

theorem null_mem_text_iff (p : Path) : '\x00' ∈ p.text ↔ ∃ part ∈ p.parts, '\x00' ∈ part := by
  have hanchor : '\x00' ∉ p.anchor.text := by cases p.anchor <;> decide
  rw [text]
  split
  · rename_i hempty
    simp [hempty.2]
  · rw [List.mem_append]
    constructor
    · intro h
      rcases mem_join (h.resolve_left hanchor) with h | h
      · cases h
      · exact h
    · rintro ⟨part, hpart, h⟩
      exact .inr (mem_join_of_mem hpart h)

theorem null_notMem_below {p : Path} (hnull : '\x00' ∉ p.text) (h : ∀ name ∈ place, IsName name) :
    '\x00' ∉ (p.below place).text := by
  rw [null_mem_text_iff] at hnull ⊢
  rintro ⟨part, hpart, hmem⟩
  rcases List.mem_append.mp hpart with hpart | hpart
  · exact hnull ⟨part, hpart, hmem⟩
  · exact (h part hpart).2.2.1 hmem

theorem startsWith_slashed_iff {first : Text} (hname : IsName name) (hfirst : '/' ∉ first) :
    startsWith (name ++ "/") (slashed (first :: rest)) ↔ first = name ∧ rest ≠ [] := by
  rw [slashed_of_ne_nil (by simp), startsWith, Option.isSome_iff_exists]
  have hslash : "/".toList = ['/'] := rfl
  simp only [after?_eq_some_iff, hslash, List.append_assoc, List.singleton_append]
  constructor
  · rintro ⟨more, hmore⟩
    have hrest : rest ≠ [] := by
      rintro rfl
      rw [join] at hmore
      exact hfirst (by simp [hmore])
    rw [join_cons _ _ hrest] at hmore
    have hfields := congrArg (fields '/') hmore
    rw [fields_append hfirst, fields_append hname.2.1] at hfields
    exact ⟨(List.cons.inj hfields).1, hrest⟩
  · rintro ⟨rfl, hrest⟩
    exact ⟨_, join_cons _ _ hrest⟩

end Path

end StaticSite
