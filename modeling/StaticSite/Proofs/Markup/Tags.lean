import StaticSite.Proofs.Markup.Reading

/-!
# The tags of a document

Searching a rendered document for tags finds the tags it was written with, each at its place. So
the tags are balanced, and the closing tag of a reference is found behind its inside.
-/

namespace StaticSite

open Text

namespace Text

variable {α : Type} {read : Recogniser α}

theorem place_gaps (position : Nat) (s : Text) (ps : List (Piece α)) :
    place position (s.map .gap ++ ps) = place (position + s.length) ps := by
  induction s generalizing position with
  | nil => rfl
  | cons c s ih =>
      rw [List.map_cons, List.cons_append, place, ih]
      congr 1
      rw [List.length_cons]
      omega

theorem place_append_of_none {position : Nat} {s t : Text}
    (h : ∀ u, u ≠ [] → u <:+ s → read (u ++ t) = none) :
    place position (split read (s ++ t)) = place (position + s.length) (split read t) := by
  rw [split_append_of_none h, place_gaps]

theorem place_append_of_some {position : Nat} {source t : Text} {a : α} (hs : source ≠ [])
    (h : read (source ++ t) = some (a, t)) :
    place position (split read (source ++ t)) =
      ⟨position, position + source.length, source, a⟩ ::
        place (position + source.length) (split read t) := by
  rw [split_of_some hs h]
  rfl

end Text

namespace Markup

theorem isOrdinary_of_suffix {s u : Text} (h : isOrdinary s) (hu : u <:+ s) : isOrdinary u := by
  obtain ⟨t, rfl⟩ := hu
  exact isOrdinary_of_append h

namespace Document

/-- The tags of a document that stands at `position`, with their places. -/
def tags : Nat → Document → List (Span Tag)
  | _, empty => []
  | position, text s rest => rest.tags (position + s.length)
  | position, selfClosing attributes rest =>
      let stop := position + (renderSelfClosing attributes).length
      ⟨position, stop, renderSelfClosing attributes, .selfClosing (selfClosingBody attributes)⟩ ::
        rest.tags stop
  | position, around identifier attributes inside rest =>
      let opened := position + (renderOpening identifier attributes).length
      let closed := opened + inside.render.length
      let stop := closed + renderClosing.length
      ⟨position, opened, renderOpening identifier attributes,
          .opening (openingBody identifier attributes)⟩ ::
        (inside.tags opened ++ ⟨closed, stop, renderClosing, .closing⟩ :: rest.tags stop)

theorem place_readTag {d : Document} (hd : d.WellFormed) (position : Nat) (t : Text) :
    place position (split readTag (d.render ++ t)) =
      d.tags position ++ place (position + d.render.length) (split readTag t) := by
  induction d generalizing position t with
  | empty => rfl
  | text s rest ih =>
      have hnone : ∀ u, u ≠ [] → u <:+ s → readTag (u ++ (rest.render ++ t)) = none :=
        fun u hne hu => readTag_of_isOrdinary hne (isOrdinary_of_suffix hd.1 hu) _
      rw [render, List.append_assoc, place_append_of_none hnone, ih hd.2, tags, List.length_append,
        Nat.add_assoc]
  | selfClosing attributes rest ih =>
      obtain ⟨-, hattributes, hrest⟩ := hd
      have hread := readTag_renderSelfClosing hattributes (rest.render ++ t)
      have hne : renderSelfClosing attributes ≠ [] := by simp [renderSelfClosing_eq_append]
      rw [render, List.append_assoc, place_append_of_some hne hread, ih hrest, tags,
        List.length_append, Nat.add_assoc]
      rfl
  | around identifier attributes inside rest ihInside ihRest =>
      obtain ⟨hidentifier, hattributes, hinside, hrest⟩ := hd
      have hopening := readTag_renderOpening hidentifier hattributes
        (inside.render ++ (renderClosing ++ (rest.render ++ t)))
      have hclosing := readTag_renderClosing (rest.render ++ t)
      have hne : renderOpening identifier attributes ≠ [] := by
        unfold renderOpening
        simp
      have hne' : renderClosing ≠ [] := by simp [renderClosing_eq_append]
      rw [render, List.append_assoc, List.append_assoc, List.append_assoc,
        place_append_of_some hne hopening, ihInside hinside, place_append_of_some hne' hclosing,
        ihRest hrest, tags]
      simp [List.length_append, Nat.add_assoc]

theorem spans_readTag {d : Document} (hd : d.WellFormed) : spans readTag d.render = d.tags 0 := by
  have hplace := place_readTag hd 0 []
  rwa [List.append_nil, show split readTag [] = [] from rfl, place, List.append_nil] at hplace

theorem closingTag?_tags (d : Document) (depth position : Nat) (more : List (Span Tag)) :
    closingTag? (depth + 1) (d.tags position ++ more) = closingTag? (depth + 1) more := by
  induction d generalizing depth position more with
  | empty => rfl
  | text s rest ih => exact ih depth _ more
  | selfClosing attributes rest ih => exact ih depth _ more
  | around identifier attributes inside rest ihInside ihRest =>
      rw [tags, List.cons_append, closingTag?, List.append_assoc, ihInside, List.cons_append,
        closingTag?]
      exact ihRest depth _ more

theorem start_lt_of_mem_tags {d : Document} {position : Nat} {tag : Span Tag}
    (h : tag ∈ d.tags position) : tag.start < position + d.render.length := by
  induction d generalizing position with
  | empty => simp [tags] at h
  | text s rest ih =>
      have := ih h
      rw [render, List.length_append]
      omega
  | selfClosing attributes rest ih =>
      have hpos : 0 < (renderSelfClosing attributes).length := by
        simp [renderSelfClosing_eq_append]
      rw [render, List.length_append]
      rcases List.mem_cons.mp h with rfl | h
      · simp only
        omega
      · have := ih h
        omega
  | around identifier attributes inside rest ihInside ihRest =>
      have hpos : 0 < renderClosing.length := by simp [renderClosing_eq_append]
      simp only [render, List.length_append]
      rcases List.mem_cons.mp h with rfl | h
      · simp only
        omega
      · rcases List.mem_append.mp h with h | h
        · have := ihInside h
          omega
        · rcases List.mem_cons.mp h with rfl | h
          · simp only
            omega
          · have := ihRest h
            omega

end Document

end Markup

end StaticSite
