import StaticSite.Text.Blank
import StaticSite.Text.Search

/-!
# Searching joined texts

What a search finds in `s ++ c :: t` is what it finds in `s` and in `t`, provided no match goes
across the character `c`. A stretch of a text in which nothing can begin is left as it is.
-/

namespace StaticSite.Text

section Joined

variable {c : Char}

theorem notMem_of_all {p : Char → Bool} {s : Text} (h : ∀ a ∈ s, p a) (hc : p c = false) :
    c ∉ s := by
  intro hmem
  rw [h c hmem] at hc
  cases hc

theorem after?_append_cons {mark : Text} (h : c ∉ mark) (s t : Text) :
    after? mark (s ++ c :: t) = (after? mark s).map (· ++ c :: t) := by
  induction mark generalizing s with
  | nil => simp [after?]
  | cons a mark ih =>
      rw [List.mem_cons, not_or] at h
      cases s with
      | nil => simp [after?, Ne.symm h.1]
      | cons b s =>
          by_cases hb : a = b
          · simp [after?, hb, ih h.2]
          · simp [after?, hb]

theorem hasPart_append_cons {part : Text} (hne : part ≠ []) (h : c ∉ part) (s t : Text) :
    hasPart part (s ++ c :: t) = (hasPart part s || hasPart part t) := by
  have hstart (u : Text) : startsWith part (u ++ c :: t) = startsWith part u := by
    rw [startsWith, after?_append_cons h, Option.isSome_map, startsWith]
  induction s with
  | nil =>
      have hnil : startsWith part [] = false := by
        cases part with
        | nil => exact absurd rfl hne
        | cons a part => rfl
      have hempty : startsWith part (c :: t) = startsWith part [] := hstart []
      show (startsWith part (c :: t) || hasPart part t) = (part.isEmpty || hasPart part t)
      rw [hempty, hnil, List.isEmpty_eq_false_iff.mpr hne]
  | cons a s ih =>
      have ha := hstart (a :: s)
      rw [List.cons_append] at ha ⊢
      rw [hasPart, ha, ih, hasPart, Bool.or_assoc]

theorem hasPart_prepend_of_notMem {part gap : Text} (hne : part ≠ []) (h : ∀ c ∈ gap, c ∉ part)
    (s : Text) : hasPart part (gap ++ s) = hasPart part s := by
  induction gap with
  | nil => rfl
  | cons c gap ih =>
      obtain ⟨hc, hgap⟩ := List.forall_mem_cons.mp h
      have hcons := hasPart_append_cons hne hc [] (gap ++ s)
      rwa [List.nil_append, hasPart, List.isEmpty_eq_false_iff.mpr hne, Bool.false_or,
        ih hgap] at hcons

theorem hasPart_append_of_notMem {part gap : Text} (hne : part ≠ []) (h : ∀ c ∈ gap, c ∉ part)
    (s : Text) : hasPart part (s ++ gap) = hasPart part s := by
  cases gap with
  | nil => rw [List.append_nil]
  | cons c gap =>
      obtain ⟨hc, hgap⟩ := List.forall_mem_cons.mp h
      have hrest := hasPart_prepend_of_notMem hne hgap []
      rw [List.append_nil, hasPart, List.isEmpty_eq_false_iff.mpr hne] at hrest
      rw [hasPart_append_cons hne hc, hrest, Bool.or_false]

variable {p : Char → Bool}

theorem takeWhile_append_cons (h : p c = false) (s t : Text) :
    (s ++ c :: t).takeWhile p = s.takeWhile p := by
  induction s with
  | nil => simp [h]
  | cons b s ih => by_cases hb : p b <;> simp [hb, ih]

theorem dropWhile_append_cons (h : p c = false) (s t : Text) :
    (s ++ c :: t).dropWhile p = s.dropWhile p ++ c :: t := by
  induction s with
  | nil => simp [h]
  | cons b s ih => by_cases hb : p b <;> simp [hb, ih]

theorem cut_append_cons {s : Text} (h : c ∉ s) (t : Text) : cut c (s ++ c :: t) = (s, t) := by
  have hrun : ∀ a ∈ s, (a != c) = true := fun a ha => bne_iff_ne.mpr fun heq => h (heq ▸ ha)
  have hrest : ∀ a ∈ (c :: t).head?, (a != c) = false := by simp
  obtain ⟨htake, hdrop⟩ := takeWhile_append_of_head hrun hrest
  rw [cut, htake, hdrop, List.drop_one, List.tail_cons]

theorem cut_of_notMem {s : Text} (h : c ∉ s) : cut c s = (s, []) := by
  have hrun : ∀ a ∈ s, (a != c) = true := fun a ha => bne_iff_ne.mpr fun heq => h (heq ▸ ha)
  have hrest : ∀ a ∈ ([] : Text).head?, (a != c) = false := by simp
  obtain ⟨htake, hdrop⟩ := takeWhile_append_of_head hrun hrest
  rw [List.append_nil] at htake hdrop
  rw [cut, htake, hdrop, List.drop_nil]

/-- A text is cut at the first `c` in one way. -/
theorem eq_of_append_cons {s s' t t' : Text} (hs : c ∉ s) (hs' : c ∉ s')
    (h : s ++ c :: t = s' ++ c :: t') : s = s' ∧ t = t' := by
  have hleft : cut? c (s ++ c :: t) = some (s, t) := cut?_eq_some_iff.mpr ⟨rfl, hs⟩
  have hright : cut? c (s ++ c :: t) = some (s', t') := cut?_eq_some_iff.mpr ⟨h, hs'⟩
  rw [hleft] at hright
  cases hright
  exact ⟨rfl, rfl⟩

/-- What is read without a `c` is read before the first `c`. -/
theorem exists_of_append_eq {source rest s t : Text} (h : c ∉ source)
    (heq : source ++ rest = s ++ c :: t) : ∃ more, s = source ++ more ∧ rest = more ++ c :: t := by
  rcases List.append_eq_append_iff.mp heq with hparts | ⟨more, rfl, hmore⟩
  · exact hparts
  · cases more with
    | nil => exact ⟨[], by simp, hmore.symm⟩
    | cons a more =>
        cases hmore
        exact absurd (List.mem_append_right s List.mem_cons_self) h

end Joined

theorem hasPart_eq_false_of_suffix {part s u : Text} (h : hasPart part s = false) (hu : u <:+ s) :
    hasPart part u = false := by
  induction s with
  | nil => rwa [List.suffix_nil.mp hu]
  | cons c s ih =>
      rcases List.suffix_cons_iff.mp hu with rfl | hu
      · exact h
      · rw [hasPart, Bool.or_eq_false_iff] at h
        exact ih h.2 hu

theorem after?_eq_none_of_hasPart {part s u : Text} (h : hasPart part s = false) (hu : u <:+ s) :
    after? part u = none := by
  have hfree := hasPart_eq_false_of_suffix h hu
  cases u with
  | nil =>
      cases part with
      | nil => cases hfree
      | cons a part => rfl
  | cons c u =>
      rw [hasPart, Bool.or_eq_false_iff] at hfree
      simpa [startsWith] using hfree.1

/-- A mark of which the first character stands nowhere else in it does not begin before a place at
which it stands, unless it is part of what is before that place. -/
theorem after?_append_of_hasPart {a : Char} {mark s u : Text} (ha : a ∉ mark)
    (h : hasPart (a :: mark) s = false) (hu : u <:+ s) (hne : u ≠ []) (t : Text) :
    after? (a :: mark) (u ++ a :: t) = none := by
  have hnone := after?_eq_none_of_hasPart h hu
  cases u with
  | nil => exact absurd rfl hne
  | cons c u =>
      rw [List.cons_append, after?]
      split
      · rename_i hc
        rw [after?, if_pos hc] at hnone
        rw [after?_append_cons ha, hnone]
        rfl
      · rfl

variable {α : Type} {read : Recogniser α}

theorem readFirst?_append_of_none {s t : Text}
    (h : ∀ u, u ≠ [] → u <:+ s → read (u ++ t) = none) :
    readFirst? read (s ++ t) = readFirst? read t := by
  induction s with
  | nil => rfl
  | cons c s ih =>
      have hs : read (c :: (s ++ t)) = none := h (c :: s) (by simp) (List.suffix_refl _)
      rw [List.cons_append, readFirst?, hs, Option.none_or,
        ih fun u hu hus => h u hu (hus.trans (List.suffix_cons c s))]

theorem Recogniser.Consumes.nil_eq_none (consumes : read.Consumes) : read [] = none := by
  cases h : read [] with
  | none => rfl
  | some r =>
      obtain ⟨source, hs, heq⟩ := consumes _ _ _ h
      exact absurd (List.append_eq_nil_iff.mp heq.symm).1 hs

theorem exists_of_readFirst? {s : Text} {r : α × Text} (h : readFirst? read s = some r) :
    ∃ u, u <:+ s ∧ read u = some r := by
  induction s with
  | nil => exact ⟨[], List.suffix_refl [], h⟩
  | cons c s ih =>
      rw [readFirst?, Option.or_eq_some_iff] at h
      rcases h with h | ⟨-, h⟩
      · exact ⟨c :: s, List.suffix_refl _, h⟩
      · obtain ⟨u, hu, hread⟩ := ih h
        exact ⟨u, hu.trans (List.suffix_cons c s), hread⟩

theorem eq_none_of_readFirst? {s u : Text} (h : readFirst? read s = none) (hu : u <:+ s) :
    read u = none := by
  induction s with
  | nil =>
      rw [List.suffix_nil.mp hu]
      exact h
  | cons c s ih =>
      rw [readFirst?, Option.or_eq_none_iff] at h
      rcases List.suffix_cons_iff.mp hu with rfl | hu
      · exact h.1
      · exact ih h.2 hu

/-- What a recogniser reads does not go on into `t`, whatever stands before `t`. -/
def Recogniser.EndsBefore (read : Recogniser α) (t : Text) : Prop :=
  ∀ s, s ≠ [] → read (s ++ t) = (read s).map fun r => (r.1, r.2 ++ t)

theorem split_append (consumes : read.Consumes) {t : Text} (ends : read.EndsBefore t) (s : Text) :
    split read (s ++ t) = split read s ++ split read t := by
  induction s using split_induction consumes with
  | nil => rfl
  | gap a s hs ih =>
      have h : read (a :: (s ++ t)) = none := by simpa [hs] using ends (a :: s) (by simp)
      rw [List.cons_append, split_cons_of_none h, split_cons_of_none hs, ih, List.cons_append]
  | hit a source rest hne hs ih =>
      have h : read (source ++ (rest ++ t)) = some (a, rest ++ t) := by
        simpa [hs] using ends (source ++ rest) (by simp [hne])
      rw [List.append_assoc, split_of_some hne h, split_of_some hne hs, ih, List.cons_append]

/-- What a recogniser reads before the character `c` does not depend on what follows from `c` on. -/
def Recogniser.StopsAt (read : Recogniser α) (c : Char) : Prop :=
  ∀ s t, read (s ++ c :: t) = (read s).map fun r => (r.1, r.2 ++ c :: t)

theorem split_append_cons (consumes : read.Consumes) {c : Char} (stops : read.StopsAt c)
    (s t : Text) : split read (s ++ c :: t) = split read s ++ .gap c :: split read t := by
  have h : read (c :: t) = none := by simpa [consumes.nil_eq_none] using stops [] t
  rw [split_append consumes (fun u _ => stops u t), split_cons_of_none h]

/-- A stretch in which no match begins is a run of gaps. -/
theorem split_append_of_none {s t : Text} (h : ∀ u, u ≠ [] → u <:+ s → read (u ++ t) = none) :
    split read (s ++ t) = s.map .gap ++ split read t := by
  induction s with
  | nil => rfl
  | cons c s ih =>
      have hs : read (c :: (s ++ t)) = none := h (c :: s) (by simp) (List.suffix_refl _)
      rw [List.cons_append, split_cons_of_none hs,
        ih fun u hu hus => h u hu (hus.trans (List.suffix_cons c s))]
      rfl

theorem readAll_append_of_none {s t : Text}
    (h : ∀ u, u ≠ [] → u <:+ s → read (u ++ t) = none) :
    readAll read (s ++ t) = readAll read t := by
  rw [readAll, split_append_of_none h, List.filterMap_append, List.filterMap_map]
  simp [readAll]

/-- A match begins with the character `c`. -/
def Recogniser.OpensWith (read : Recogniser α) (c : Char) : Prop :=
  ∀ s, s.head? ≠ some c → read s = none

theorem Recogniser.OpensWith.eq_none {c : Char} (opens : read.OpensWith c) {s : Text}
    (hs : c ∉ s) (t u : Text) (hu : u ≠ []) (hus : u <:+ s) : read (u ++ t) = none := by
  apply opens
  cases u with
  | nil => exact absurd rfl hu
  | cons a u =>
      intro hhead
      cases hhead
      exact hs (hus.subset List.mem_cons_self)

section Replaced

variable (write : α → Text → Text)

@[simp] theorem replaceAll_nil : replaceAll read write [] = [] := rfl

theorem replaceAll_cons_of_none {c : Char} {s : Text} (h : read (c :: s) = none) :
    replaceAll read write (c :: s) = c :: replaceAll read write s := by
  simp [replaceAll, split_cons_of_none h, Piece.replaced]

theorem replaceAll_of_some {source rest : Text} {a : α} (hs : source ≠ [])
    (h : read (source ++ rest) = some (a, rest)) :
    replaceAll read write (source ++ rest) = write a source ++ replaceAll read write rest := by
  simp [replaceAll, split_of_some hs h, Piece.replaced]

theorem replaceAll_append (consumes : read.Consumes) {t : Text} (ends : read.EndsBefore t)
    (s : Text) :
    replaceAll read write (s ++ t) = replaceAll read write s ++ replaceAll read write t := by
  rw [replaceAll, split_append consumes ends, List.flatMap_append]
  rfl

theorem replaceAll_append_cons (consumes : read.Consumes) {c : Char} (stops : read.StopsAt c)
    (s t : Text) :
    replaceAll read write (s ++ c :: t) =
      replaceAll read write s ++ c :: replaceAll read write t := by
  simp [replaceAll, split_append_cons consumes stops, Piece.replaced]

theorem replaceAll_of_split {s source : Text} {a : α} {ps qs : List (Piece α)}
    (h : split read s = ps ++ .hit a source :: qs) :
    replaceAll read write s = ps.flatMap (Piece.replaced write) ++
      (write a source ++ qs.flatMap (Piece.replaced write)) := by
  rw [replaceAll, h, List.flatMap_append, List.flatMap_cons]
  rfl

theorem replaceAll_append_of_none {s t : Text}
    (h : ∀ u, u ≠ [] → u <:+ s → read (u ++ t) = none) :
    replaceAll read write (s ++ t) = s ++ replaceAll read write t := by
  rw [replaceAll, split_append_of_none h, List.flatMap_append, List.flatMap_map]
  simp only [Piece.replaced, List.flatMap_singleton']
  rfl

theorem replaceAll_append_of_opensWith {c : Char} (opens : read.OpensWith c) {s : Text}
    (hs : c ∉ s) (t : Text) :
    replaceAll read write (s ++ t) = s ++ replaceAll read write t :=
  replaceAll_append_of_none write (opens.eq_none hs t)

theorem replaceAll_of_opensWith {c : Char} (opens : read.OpensWith c) {s : Text} (hs : c ∉ s) :
    replaceAll read write s = s := by
  simpa using replaceAll_append_of_opensWith write opens hs []

theorem replaceAll_eq_self {s : Text} (h : readFirst? read s = none) :
    replaceAll read write s = s := by
  induction s with
  | nil => rfl
  | cons c s ih =>
      rw [readFirst?, Option.or_eq_none_iff] at h
      rw [replaceAll_cons_of_none write h.1, ih h.2]

end Replaced

end StaticSite.Text
