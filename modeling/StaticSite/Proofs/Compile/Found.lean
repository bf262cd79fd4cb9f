import StaticSite.Proofs.Compile.Call
import StaticSite.Proofs.Markup.Places
import StaticSite.Proofs.Markup.Tags

/-!
# The references found in a document

The references with children that a rendered document is found to have are its outermost calls,
each with its props and its inside. In a document without such calls the tags of self-closing
shape are its self-closing calls.
-/

namespace StaticSite.Markup

open Text

/-- Tags that start before `consumed` are passed over. -/
theorem childReferencesAmong_append {html : Text} {consumed : Nat} {tags : List (Span Tag)}
    (h : ∀ tag ∈ tags, tag.start < consumed) (more : List (Span Tag)) :
    childReferencesAmong html consumed (tags ++ more) =
      childReferencesAmong html consumed more := by
  induction tags with
  | nil => rfl
  | cons tag tags ih =>
      rw [List.cons_append, childReferencesAmong, if_pos (h tag (by simp))]
      exact ih fun t ht => h t (by simp [ht])

theorem childReferencesAmong_opening {html : Text} {consumed : Nat} {tag close : Span Tag}
    {tags : List (Span Tag)} {body identifier region : Text} (hvalue : tag.value = .opening body)
    (hstart : consumed ≤ tag.start) (hname : namedComponent? body = some (identifier, region))
    (hclose : closingTag? 1 tags = some close) :
    childReferencesAmong html consumed (tag :: tags) =
      { form := .around (trim (slice html tag.stop close.start))
        identifier
        props := attributes .plain region
        start := tag.start
        stop := close.stop
        source := slice html tag.start close.stop } ::
        childReferencesAmong html close.stop tags := by
  rw [childReferencesAmong, if_neg (by omega), hvalue]
  simp only [hname, hclose]

theorem childReferencesAmong_selfClosing {html : Text} {consumed : Nat} {tag : Span Tag}
    {body : Text} (hvalue : tag.value = .selfClosing body) (tags : List (Span Tag)) :
    childReferencesAmong html consumed (tag :: tags) = childReferencesAmong html consumed tags := by
  rw [childReferencesAmong, hvalue]
  split <;> rfl

namespace Document

def renderAround (identifier : Text) (attributes : List (Text × Text)) (inside : Document) : Text :=
  renderOpening identifier attributes ++ inside.render ++ renderClosing

/-- The outermost calls with children of a document that stands at `position`. -/
def references : Nat → Document → List Reference
  | _, empty => []
  | position, text s rest => rest.references (position + s.length)
  | position, selfClosing attributes rest =>
      rest.references (position + (renderSelfClosing attributes).length)
  | position, around identifier attributes inside rest =>
      let source := renderAround identifier attributes inside
      (Call.ofAround identifier attributes inside).reference position source ::
        rest.references (position + source.length)

theorem childReferencesAmong_tags {d : Document} (hd : d.WellFormed) (before after : Text)
    {consumed : Nat} (h : consumed ≤ before.length) :
    childReferencesAmong (before ++ (d.render ++ after)) consumed (d.tags before.length) =
      d.references before.length := by
  induction d generalizing before consumed with
  | empty => rfl
  | text s rest ih =>
      have hlength : consumed ≤ (before ++ s).length := by
        rw [List.length_append]
        omega
      have hrest := ih hd.2 (before ++ s) hlength
      rw [List.length_append, List.append_assoc] at hrest
      rw [render, tags, references, List.append_assoc, hrest]
  | selfClosing attributes rest ih =>
      have hlength : consumed ≤ (before ++ renderSelfClosing attributes).length := by
        rw [List.length_append]
        omega
      have hrest := ih hd.2.2 (before ++ renderSelfClosing attributes) hlength
      rw [List.length_append, List.append_assoc] at hrest
      rw [render, tags, references, List.append_assoc, childReferencesAmong_selfClosing rfl, hrest]
  | around identifier attributes inside rest ihInside ihRest =>
      obtain ⟨hidentifier, hattributes, hinside, hrest⟩ := hd
      let opening := renderOpening identifier attributes
      let source := renderAround identifier attributes inside
      let html := before ++ ((around identifier attributes inside rest).render ++ after)
      let opened := before.length + opening.length
      let closed := opened + inside.render.length
      let stop := closed + renderClosing.length
      let close : Span Tag := ⟨closed, stop, renderClosing, .closing⟩
      have hstop : stop = before.length + source.length := by
        simp only [stop, closed, opened, opening, source, renderAround, List.length_append]
        omega
      have htags : (around identifier attributes inside rest).tags before.length =
          ⟨before.length, opened, opening, .opening (openingBody identifier attributes)⟩ ::
            (inside.tags opened ++ close :: rest.tags stop) := rfl
      have hclose : closingTag? 1 (inside.tags opened ++ close :: rest.tags stop) = some close :=
        closingTag?_tags inside 0 opened _
      have hinner : slice html opened closed = inside.render := by
        have hslice := slice_append (before ++ opening) inside.render
          (renderClosing ++ (rest.render ++ after))
        simpa [html, render, opened, closed, opening] using hslice
      have houter : slice html before.length stop = source := by
        have hslice := slice_append before source (rest.render ++ after)
        rw [hstop]
        simpa [html, render, source, renderAround] using hslice
      have hpassed : ∀ tag ∈ inside.tags opened ++ [close], tag.start < stop := by
        have hpos : 0 < renderClosing.length := by simp [renderClosing_eq_append]
        intro tag htag
        rcases List.mem_append.mp htag with htag | htag
        · have := start_lt_of_mem_tags htag
          omega
        · rw [List.mem_singleton.mp htag]
          exact Nat.lt_add_of_pos_right hpos
      have htail := ihRest hrest (before ++ source) (Nat.le_refl _)
      have hhtml : before ++ source ++ (rest.render ++ after) = html := by
        simp [html, render, source, renderAround]
      rw [List.length_append, hhtml, ← hstop] at htail
      rw [htags, childReferencesAmong_opening rfl h (namedComponent?_openingBody hidentifier _)
        hclose, hinner, houter, attributes_renderAttributes hattributes, List.append_cons,
        childReferencesAmong_append hpassed, htail, references, ← render_trim]
      unfold Call.reference
      rw [← hstop]
      rfl

theorem childReferences_render {d : Document} (hd : d.WellFormed) :
    childReferences d.render = d.references 0 := by
  have htags := childReferencesAmong_tags hd [] [] (Nat.le_refl 0)
  rw [List.nil_append, List.append_nil] at htags
  rw [childReferences, spans_readTag hd]
  exact htags

theorem le_start_of_mem_references {d : Document} {position : Nat} {r : Reference}
    (h : r ∈ d.references position) : position ≤ r.start ∧ r.start ≤ r.stop := by
  induction d generalizing position with
  | empty => simp [references] at h
  | text s rest ih =>
      have := ih h
      omega
  | selfClosing attributes rest ih =>
      have := ih h
      omega
  | around identifier attributes inside rest _ ih =>
      rcases List.mem_cons.mp h with rfl | h
      · exact ⟨Nat.le_refl _, Nat.le_add_right _ _⟩
      · have := ih h
        omega

/-! ## Documents without children -/

/-- No call in the document has children. -/
def IsFlat : Document → Prop
  | empty => True
  | text _ rest => rest.IsFlat
  | selfClosing _ rest => rest.IsFlat
  | around .. => False

/-- The self-closing tags of a flat document that stands at `position`. -/
def selfClosings : Nat → Document → List (Span Unit)
  | position, text s rest => rest.selfClosings (position + s.length)
  | position, selfClosing attributes rest =>
      let source := renderSelfClosing attributes
      ⟨position, position + source.length, source, ()⟩ ::
        rest.selfClosings (position + source.length)
  | _, _ => []

theorem place_readSelfClosing {d : Document} (hd : d.WellFormed) (hflat : d.IsFlat)
    (position : Nat) :
    place position (split readSelfClosing d.render) = d.selfClosings position := by
  induction d generalizing position with
  | empty => rfl
  | text s rest ih =>
      have hnone : ∀ u, u ≠ [] → u <:+ s → readSelfClosing (u ++ rest.render) = none :=
        fun u hne hu => readSelfClosing_of_isOrdinary hne (isOrdinary_of_suffix hd.1 hu) _
      rw [render, place_append_of_none hnone, ih hd.2 hflat, selfClosings]
  | selfClosing attributes rest ih =>
      obtain ⟨-, hattributes, hrest⟩ := hd
      have hread := readSelfClosing_renderSelfClosing hattributes rest.render
      have hne : renderSelfClosing attributes ≠ [] := by simp [renderSelfClosing_eq_append]
      rw [render, place_append_of_some hne hread, ih hrest hflat, selfClosings]
  | around identifier attributes inside rest => exact absurd hflat id

theorem selfClosingTags_render {d : Document} (hd : d.WellFormed) (hflat : d.IsFlat) :
    selfClosingTags d.render = d.selfClosings 0 :=
  place_readSelfClosing hd hflat 0

theorem le_start_of_mem_selfClosings {d : Document} {position : Nat} {tag : Span Unit}
    (h : tag ∈ d.selfClosings position) : position ≤ tag.start ∧ tag.start ≤ tag.stop := by
  induction d generalizing position with
  | empty => simp [selfClosings] at h
  | text s rest ih =>
      have := ih h
      omega
  | selfClosing attributes rest ih =>
      rcases List.mem_cons.mp h with rfl | h
      · exact ⟨Nat.le_refl _, Nat.le_add_right _ _⟩
      · have := ih h
        omega
  | around identifier attributes inside rest => simp [selfClosings] at h

end Document

theorem selfClosingReference?_render {attributes : List (Text × Text)}
    (hsource : ∃ a ∈ attributes, a.1 = sourceName)
    (h : ∀ a ∈ attributes, IsAttribute .hyphenated a) (position : Nat) :
    selfClosingReference? ⟨position, position + (renderSelfClosing attributes).length,
        renderSelfClosing attributes, ()⟩ =
      some ((Call.ofSelfClosing attributes).reference position (renderSelfClosing attributes)) := by
  have hne : attributes ≠ [] := by
    rintro rfl
    simp at hsource
  have hget := Call.get?_ofSelfClosing hsource
  unfold selfClosingReference? Reference.ofSelfClosing?
  rw [selfClosingAttributes?_renderSelfClosing hne h, Option.bind_eq_bind, Option.bind_some,
    show (Table.ofList attributes).get? sourceName = _ from hget]
  rfl

end StaticSite.Markup
