import StaticSite.Markup.Reference
import StaticSite.Proofs.Text.Locality

/-!
# The places of references

Matches stand one behind the other in the text that was searched. So references with children do,
and each of them takes a whole element: a stretch from an opening tag to a closing tag.
-/

namespace StaticSite

namespace Text

variable {α : Type} {read : Recogniser α}

theorem le_start_of_mem_place {position : Nat} {ps : List (Piece α)} {a : Span α}
    (h : a ∈ place position ps) : position ≤ a.start ∧ a.start ≤ a.stop := by
  induction ps generalizing position with
  | nil => cases h
  | cons p ps ih =>
      cases p with
      | gap c =>
          have := ih h
          omega
      | hit value source =>
          rcases List.mem_cons.mp h with rfl | h
          · exact ⟨Nat.le_refl _, Nat.le_add_right _ _⟩
          · have := ih h
            omega

theorem hit_mem_of_mem_place {position : Nat} {ps : List (Piece α)} {a : Span α}
    (h : a ∈ place position ps) : .hit a.value a.source ∈ ps := by
  induction ps generalizing position with
  | nil => cases h
  | cons p ps ih =>
      cases p with
      | gap c => exact List.mem_cons_of_mem _ (ih h)
      | hit value source =>
          rcases List.mem_cons.mp h with rfl | h
          · exact List.mem_cons_self
          · exact List.mem_cons_of_mem _ (ih h)

theorem exists_of_mem_place (consumes : read.Consumes) (before : Text) {s : Text} {a : Span α}
    (h : a ∈ place before.length (split read s)) :
    ∃ left right, before ++ s = left ++ (a.source ++ right) ∧ a.start = left.length ∧
      a.stop = left.length + a.source.length ∧
      read (a.source ++ right) = some (a.value, right) := by
  induction s using split_induction consumes generalizing before with
  | nil => cases h
  | gap c t hread ih =>
      rw [split_cons_of_none hread, place] at h
      obtain ⟨left, right, hs, hplace⟩ := ih (before ++ [c]) (by simpa using h)
      exact ⟨left, right, by rw [← hs]; simp, hplace⟩
  | hit value source rest hne hread ih =>
      rw [split_of_some hne hread, place] at h
      rcases List.mem_cons.mp h with rfl | h
      · exact ⟨before, rest, rfl, rfl, rfl, hread⟩
      · obtain ⟨left, right, hs, hplace⟩ := ih (before ++ source) (by simpa using h)
        exact ⟨left, right, by rw [← hs]; simp, hplace⟩

theorem pairwise_place (position : Nat) (ps : List (Piece α)) :
    (place position ps).Pairwise fun a b => a.stop ≤ b.start := by
  induction ps generalizing position with
  | nil => exact .nil
  | cons p ps ih =>
      cases p with
      | gap c => exact ih (position + 1)
      | hit value source =>
          exact List.pairwise_cons.mpr ⟨fun b hb => (le_start_of_mem_place hb).1, ih _⟩

end Text

namespace Markup

open Text

theorem exists_of_readTag {s rest : Text} {tag : Tag} (h : readTag s = some (tag, rest)) :
    ∃ middle, s = ('<' :: middle ++ ['>']) ++ rest := by
  unfold readTag at h
  cases hclosing : after? "</Component" s with
  | some r =>
      simp only [hclosing] at h
      rw [after?_eq_some_iff] at hclosing
      cases hdrop : dropBlanks r with
      | nil => simp [hdrop] at h
      | cons c more =>
          have hr := blanks_append_dropBlanks r
          rw [hdrop] at h hr
          split at h
          · rename_i heq
            cases heq
            cases h
            refine ⟨"/Component" ++ blanks r, ?_⟩
            calc
              s = "</Component" ++ (blanks r ++ '>' :: rest) := by rw [hclosing, hr]
              _ = _ := by simp
          · cases h
  | none =>
      simp only [hclosing, Option.bind_eq_bind, Option.bind_eq_some_iff] at h
      obtain ⟨opened, hopen, h⟩ := h
      rw [after?_eq_some_iff] at hopen
      split at h
      · cases h
      · simp only [Option.bind_eq_some_iff] at h
        obtain ⟨⟨body, more⟩, hcut, h⟩ := h
        rw [cut?_eq_some_iff] at hcut
        cases h
        refine ⟨"Component" ++ body, ?_⟩
        rw [hopen, hcut.1]
        simp

theorem consumes_readTag : readTag.Consumes := by
  intro s tag rest h
  obtain ⟨middle, hs⟩ := exists_of_readTag h
  exact ⟨'<' :: middle ++ ['>'], by simp, hs⟩

theorem consumes_readSelfClosing : readSelfClosing.Consumes := by
  intro s tag rest h
  unfold readSelfClosing at h
  simp only [Option.bind_eq_bind, Option.bind_eq_some_iff] at h
  obtain ⟨opened, hopen, ⟨body, more⟩, hcut, h⟩ := h
  rw [after?_eq_some_iff] at hopen
  rw [cut?_eq_some_iff] at hcut
  split at h
  · cases h
  · split at h
    · cases h
    · cases h
      refine ⟨"<Component" ++ body ++ ['>'], by simp, ?_⟩
      rw [hopen, hcut.1]
      simp

theorem mem_of_closingTag? {depth : Nat} {tags : List (Span Tag)} {close : Span Tag}
    (h : closingTag? depth tags = some close) : close ∈ tags := by
  induction tags generalizing depth with
  | nil => cases h
  | cons tag tags ih =>
      rw [closingTag?] at h
      split at h
      · exact List.mem_cons_of_mem _ (ih h)
      · exact List.mem_cons_of_mem _ (ih h)
      · split at h
        · cases h
          exact List.mem_cons_self
        · exact List.mem_cons_of_mem _ (ih h)

/-! ## Slices -/

theorem slice_append (before s after : Text) :
    slice (before ++ (s ++ after)) before.length (before.length + s.length) = s := by
  rw [slice, List.drop_left, Nat.add_sub_cancel_left, List.take_left]

theorem slice_append_slice (s : Text) {a b c : Nat} (hab : a ≤ b) (hbc : b ≤ c) :
    slice s a b ++ slice s b c = slice s a c := by
  have hlength : c - a = (b - a) + (c - b) := by omega
  have hdrop : (s.drop a).drop (b - a) = s.drop b := by
    rw [List.drop_drop]
    congr 1
    omega
  rw [slice, slice, slice, hlength, List.take_add, hdrop]

theorem slice_append_drop (s : Text) {a b : Nat} (hab : a ≤ b) :
    slice s a b ++ s.drop b = s.drop a := by
  have hdrop : (s.drop a).drop (b - a) = s.drop b := by
    rw [List.drop_drop]
    congr 1
    omega
  rw [slice, ← hdrop, List.take_append_drop]

theorem length_slice {s : Text} {a b : Nat} (hb : b ≤ s.length) :
    (slice s a b).length = b - a := by
  rw [slice, List.length_take, List.length_drop]
  omega

/-! ## Elements -/

/-- A stretch from an opening tag to a closing tag. -/
structure IsElement (source : Text) : Prop where
  two_tags : 2 ≤ source.count '<'
  closes : source.getLast? = some '>'

/-- References that take elements of a text, one behind the other. -/
inductive Elements : Nat → Text → List Reference → Prop
  | nil (position : Nat) (s : Text) : Elements position s []
  | cons {position : Nat} (before source : Text) {rest : Text} {r : Reference}
      {rs : List Reference} (hstart : r.start = position + before.length)
      (hstop : r.stop = position + before.length + source.length) (hname : r.identifier ≠ [])
      (hsource : IsElement source) (hrest : Elements r.stop rest rs) :
      Elements position (before ++ (source ++ rest)) (r :: rs)

theorem ne_nil_of_namedComponent? {body identifier region : Text}
    (h : namedComponent? body = some (identifier, region)) : identifier ≠ [] := by
  unfold namedComponent? at h
  simp only [Option.bind_eq_bind] at h
  split at h
  · cases h
  · simp only [Option.bind_eq_some_iff] at h
    obtain ⟨opened, -, ⟨found, more⟩, -, h⟩ := h
    split at h
    · cases h
    · rename_i hname
      cases h
      simpa using hname

/-- A tag that stands in a text at its place. -/
structure Stands (html : Text) (tag : Span Tag) : Prop where
  source : slice html tag.start tag.stop = tag.source
  le : tag.start ≤ tag.stop
  inside : tag.stop ≤ html.length
  marks : ∃ middle, tag.source = '<' :: middle ++ ['>']

theorem stands_of_mem_spans {html : Text} {tag : Span Tag} (h : tag ∈ spans readTag html) :
    Stands html tag := by
  obtain ⟨left, right, hs, hstart, hstop, hread⟩ :=
    exists_of_mem_place consumes_readTag [] h
  rw [List.nil_append] at hs
  obtain ⟨middle, hmiddle⟩ := exists_of_readTag hread
  refine ⟨?_, by omega, ?_, middle, List.append_cancel_right hmiddle⟩
  · rw [hs, hstart, hstop, slice_append]
  · rw [hs, hstop, List.length_append, List.length_append]
    omega

theorem isElement_slice {html : Text} {tag close : Span Tag} (htag : Stands html tag)
    (hclose : Stands html close) (hle : tag.stop ≤ close.start) :
    IsElement (slice html tag.start close.stop) := by
  obtain ⟨opening, hopening⟩ := htag.marks
  obtain ⟨closing, hclosing⟩ := hclose.marks
  have hslice : slice html tag.start close.stop =
      tag.source ++ slice html tag.stop close.start ++ close.source := by
    rw [← htag.source, ← hclose.source, slice_append_slice html htag.le hle,
      slice_append_slice html (Nat.le_trans htag.le hle) hclose.le]
  rw [hslice]
  constructor
  · rw [List.count_append, List.count_append, hopening, hclosing]
    simp only [List.cons_append, List.count_cons_self]
    omega
  · rw [hclosing, List.getLast?_append, List.getLast?_append]
    rfl

theorem elements_childReferencesAmong {html : Text} {tags : List (Span Tag)}
    (htags : ∀ tag ∈ tags, Stands html tag)
    (hpairwise : tags.Pairwise fun a b => a.stop ≤ b.start) (consumed : Nat) :
    Elements consumed (html.drop consumed) (childReferencesAmong html consumed tags) := by
  induction tags generalizing consumed with
  | nil => exact .nil consumed _
  | cons tag tags ih =>
      obtain ⟨hfirst, hpairwise⟩ := List.pairwise_cons.mp hpairwise
      have hrest : ∀ consumed, Elements consumed (html.drop consumed)
          (childReferencesAmong html consumed tags) :=
        ih (fun t ht => htags t (List.mem_cons_of_mem tag ht)) hpairwise
      rw [childReferencesAmong]
      split
      · exact hrest consumed
      · rename_i hstart
        split
        · split
          · rename_i identifier region close hname hclose
            have hmem := mem_of_closingTag? hclose
            have htag := htags tag List.mem_cons_self
            have hclosing := htags close (List.mem_cons_of_mem tag hmem)
            have hle := hfirst close hmem
            have hstop : tag.start ≤ close.stop := by
              have := htag.le
              have := hclosing.le
              omega
            have hinside := hclosing.inside
            have hbefore := length_slice (s := html) (a := consumed) (b := tag.start) (by omega)
            have hsource := length_slice (s := html) (a := tag.start) hinside
            rw [← slice_append_drop html (a := consumed) (b := tag.start) (by omega),
              ← slice_append_drop html hstop]
            refine .cons _ _ ?_ ?_ (ne_nil_of_namedComponent? hname)
              (isElement_slice htag hclosing hle) (hrest _)
            · simp only
              omega
            · simp only
              omega
          · exact hrest consumed
        · exact hrest consumed

theorem elements_childReferences (html : Text) : Elements 0 html (childReferences html) :=
  elements_childReferencesAmong (fun _ htag => stands_of_mem_spans htag) (pairwise_place _ _) 0

end Markup

end StaticSite
