import StaticSite.Proofs.Markup.Reading
import StaticSite.Proofs.Markup.Places

/-!
# Searching for self-closing tags

A tag of self-closing shape ends at the first `>` behind its start, and a slash stands before that
`>`. So a text that ends with `>` can be searched on its own, and no tag goes across a block: a
text that starts with `.>` and ends with `>`.
-/

namespace StaticSite.Markup

open Text

/-- Whether a text without `>` is a tag of self-closing shape as soon as a `>` follows. -/
def isSelfClosing (whole : Text) : Bool :=
  match after? "<Component" whole with
  | none => false
  | some body => !(body.length < 2) && body.getLast? = some '/'

theorem readSelfClosing_of_cut {whole : Text} (h : '>' ∉ whole) (rest : Text) :
    readSelfClosing (whole ++ '>' :: rest) =
      if isSelfClosing whole then some ((), rest) else none := by
  have hmark : '>' ∉ "<Component".toList := by decide
  unfold readSelfClosing isSelfClosing
  rw [after?_append_cons hmark]
  cases hopen : after? "<Component" whole with
  | none => rfl
  | some body =>
      rw [after?_eq_some_iff] at hopen
      have hbody : '>' ∉ body := fun hc => h (hopen ▸ List.mem_append_right _ hc)
      have hcut : cut? '>' (body ++ '>' :: rest) = some (body, rest) :=
        cut?_eq_some_iff.mpr ⟨rfl, hbody⟩
      simp only [Option.map_some, Option.bind_eq_bind, Option.bind_some, hcut]
      by_cases hlength : body.length < 2
      · simp [hlength]
      · by_cases hlast : body.getLast? = some '/'
        · simp [hlength, hlast]
        · simp [hlength, hlast]

theorem readSelfClosing_of_notMem {s : Text} (h : '>' ∉ s) : readSelfClosing s = none := by
  cases hread : readSelfClosing s with
  | none => rfl
  | some r =>
      unfold readSelfClosing at hread
      simp only [Option.bind_eq_bind, Option.bind_eq_some_iff] at hread
      obtain ⟨opened, hopen, ⟨body, rest⟩, hcut, -⟩ := hread
      rw [after?_eq_some_iff] at hopen
      rw [cut?_eq_some_iff] at hcut
      refine absurd ?_ h
      rw [hopen, hcut.1]
      simp

/-- What is read in a text that holds a `>` does not depend on what follows the text. -/
theorem readSelfClosing_append_of_mem {s : Text} (h : '>' ∈ s) (t : Text) :
    readSelfClosing (s ++ t) = (readSelfClosing s).map fun r => (r.1, r.2 ++ t) := by
  obtain ⟨whole, rest, rfl, hwhole⟩ := List.eq_append_cons_of_mem h
  rw [List.append_assoc, List.cons_append, readSelfClosing_of_cut hwhole,
    readSelfClosing_of_cut hwhole]
  cases isSelfClosing whole <;> rfl

theorem mem_of_readSelfClosing {s : Text} {r : Unit × Text} (h : readSelfClosing s = some r) :
    '>' ∈ s := by
  refine Classical.byContradiction fun hs => ?_
  rw [readSelfClosing_of_notMem hs] at h
  cases h

theorem getLast?_of_isSelfClosing {whole : Text} (h : isSelfClosing whole) :
    whole.getLast? = some '/' := by
  unfold isSelfClosing at h
  split at h
  · cases h
  · rename_i body hopen
    rw [Bool.and_eq_true, decide_eq_true_eq] at h
    rw [after?_eq_some_iff] at hopen
    rw [hopen, List.getLast?_append, h.2]
    rfl

theorem mem_of_isSelfClosing {whole : Text} (h : isSelfClosing whole) : '<' ∈ whole := by
  unfold isSelfClosing at h
  split at h
  · cases h
  · rename_i body hopen
    rw [after?_eq_some_iff] at hopen
    rw [hopen]
    exact List.mem_append_left _ (by decide)

/-- What stands before the next `>` is no slash, so nothing that starts before it is a tag. -/
theorem readSelfClosing_append_of_ne {c : Char} (hslash : c ≠ '/') (hmark : c ≠ '>') {s : Text}
    (h : '>' ∉ s) (t : Text) : readSelfClosing (s ++ c :: '>' :: t) = none := by
  have hwhole : '>' ∉ s ++ [c] := by simp [h, hmark.symm]
  have hread := readSelfClosing_of_cut hwhole t
  rw [List.append_assoc, List.singleton_append] at hread
  rw [hread, if_neg]
  intro hshape
  have hlast := getLast?_of_isSelfClosing hshape
  simp [hslash] at hlast

/-! ## Splitting -/

theorem split_append_of_closed {s : Text} (h : ∀ c ∈ s.getLast?, c = '>') (t : Text) :
    split readSelfClosing (s ++ t) = split readSelfClosing s ++ split readSelfClosing t := by
  induction s using split_induction consumes_readSelfClosing with
  | nil => rfl
  | gap a s hread ih =>
      have hmem : '>' ∈ a :: s := by
        have hlast := List.getLast?_eq_some_getLast (List.cons_ne_nil a s)
        rw [← h _ hlast]
        exact List.getLast_mem _
      have hjoined : readSelfClosing (a :: (s ++ t)) = none := by
        simpa [hread] using readSelfClosing_append_of_mem hmem t
      have hs : ∀ c ∈ s.getLast?, c = '>' := fun c hc => h c (by simp_all [List.getLast?_cons])
      rw [List.cons_append, split_cons_of_none hjoined, split_cons_of_none hread, ih hs,
        List.cons_append]
  | hit a source rest hne hread ih =>
      have hjoined : readSelfClosing (source ++ (rest ++ t)) = some (a, rest ++ t) := by
        simpa [hread] using readSelfClosing_append_of_mem (mem_of_readSelfClosing hread) t
      have hrest : ∀ c ∈ rest.getLast?, c = '>' :=
        fun c hc => h c (by simp_all [List.getLast?_append])
      rw [List.append_assoc, split_of_some hne hjoined, split_of_some hne hread, ih hrest,
        List.cons_append]

/-- A `>` behind no slash ends the search: what follows is searched on its own. -/
theorem split_append_of_ne {c : Char} (hslash : c ≠ '/') (hmark : c ≠ '>') (s t : Text) :
    split readSelfClosing (s ++ c :: '>' :: t) =
      split readSelfClosing s ++ .gap c :: .gap '>' :: split readSelfClosing t := by
  induction s using split_induction consumes_readSelfClosing with
  | nil =>
      have hfirst := readSelfClosing_append_of_ne hslash hmark List.not_mem_nil t
      have hend := readSelfClosing_cons_of_ne (show '>' ≠ '<' by decide) t
      rw [List.nil_append] at hfirst ⊢
      rw [split_cons_of_none hfirst, split_cons_of_none hend]
      rfl
  | gap a s hread ih =>
      have hjoined : readSelfClosing (a :: (s ++ c :: '>' :: t)) = none := by
        by_cases hmem : '>' ∈ a :: s
        · simpa [hread] using readSelfClosing_append_of_mem hmem (c :: '>' :: t)
        · exact readSelfClosing_append_of_ne hslash hmark hmem t
      rw [List.cons_append, split_cons_of_none hjoined, split_cons_of_none hread, ih,
        List.cons_append]
  | hit a source rest hne hread ih =>
      have hjoined : readSelfClosing (source ++ (rest ++ c :: '>' :: t)) =
          some (a, rest ++ c :: '>' :: t) := by
        simpa [hread] using
          readSelfClosing_append_of_mem (mem_of_readSelfClosing hread) (c :: '>' :: t)
      rw [List.append_assoc, split_of_some hne hjoined, split_of_some hne hread, ih,
        List.cons_append]

/-- A text that no tag of self-closing shape goes into or comes out of. -/
structure IsBlock (w : Text) : Prop where
  opens : ∃ body, w = '.' :: '>' :: body
  closes : w.getLast? = some '>'

theorem split_append_block {w : Text} (h : IsBlock w) (s t : Text) :
    split readSelfClosing (s ++ (w ++ t)) =
      split readSelfClosing s ++ (split readSelfClosing w ++ split readSelfClosing t) := by
  obtain ⟨body, hw⟩ := h.opens
  have hbody : ∀ c ∈ body.getLast?, c = '>' := by
    have hlast := h.closes
    intro c hc
    simp_all [List.getLast?_cons]
  have hdot := split_append_of_ne (show '.' ≠ '/' by decide) (by decide)
  have hblock := hdot [] body
  rw [List.nil_append] at hblock
  rw [hw, List.cons_append, List.cons_append, hdot, split_append_of_closed hbody, hblock]
  simp [split, splitAfter]

theorem split_of_notMem {s : Text} (h : '>' ∉ s) : split readSelfClosing s = s.map .gap := by
  have hnone : ∀ u, u ≠ [] → u <:+ s → readSelfClosing (u ++ []) = none := by
    intro u _ hu
    rw [List.append_nil]
    exact readSelfClosing_of_notMem fun hc => h (hu.subset hc)
  have hsplit := split_append_of_none hnone
  rw [List.append_nil] at hsplit
  rw [hsplit]
  exact List.append_nil _

/-- Text without `>` that follows completes no tag. -/
theorem split_append_of_notMem {t : Text} (h : '>' ∉ t) (s : Text) :
    split readSelfClosing (s ++ t) = split readSelfClosing s ++ t.map .gap := by
  induction s using split_induction consumes_readSelfClosing with
  | nil => exact split_of_notMem h
  | gap a s hread ih =>
      have hjoined : readSelfClosing (a :: (s ++ t)) = none := by
        by_cases hmem : '>' ∈ a :: s
        · simpa [hread] using readSelfClosing_append_of_mem hmem t
        · exact readSelfClosing_of_notMem (s := a :: s ++ t) (by simp_all)
      rw [List.cons_append, split_cons_of_none hjoined, split_cons_of_none hread, ih,
        List.cons_append]
  | hit a source rest hne hread ih =>
      have hjoined : readSelfClosing (source ++ (rest ++ t)) = some (a, rest ++ t) := by
        simpa [hread] using readSelfClosing_append_of_mem (mem_of_readSelfClosing hread) t
      rw [List.append_assoc, split_of_some hne hjoined, split_of_some hne hread, ih,
        List.cons_append]

/-- The tags of a text are tags of every text that starts with it. -/
theorem mem_split_append {s source : Text} (h : .hit () source ∈ split readSelfClosing s)
    (t : Text) : .hit () source ∈ split readSelfClosing (s ++ t) := by
  induction s using split_induction consumes_readSelfClosing with
  | nil => cases h
  | gap a s hread ih =>
      by_cases hmem : '>' ∈ a :: s
      · have hjoined : readSelfClosing (a :: (s ++ t)) = none := by
          simpa [hread] using readSelfClosing_append_of_mem hmem t
        rw [split_cons_of_none hread] at h
        rw [List.cons_append, split_cons_of_none hjoined]
        exact List.mem_cons_of_mem _ (ih (by simpa using h))
      · rw [split_of_notMem hmem] at h
        simp at h
  | hit a tag rest hne hread ih =>
      have hjoined : readSelfClosing (tag ++ (rest ++ t)) = some (a, rest ++ t) := by
        simpa [hread] using readSelfClosing_append_of_mem (mem_of_readSelfClosing hread) t
      rw [split_of_some hne hread] at h
      rw [List.append_assoc, split_of_some hne hjoined]
      rcases List.mem_cons.mp h with h | h
      · rw [h]
        exact List.mem_cons_self
      · exact List.mem_cons_of_mem _ (ih h)

end StaticSite.Markup
