import StaticSite.Proofs.Markup.Tags
import StaticSite.Proofs.Table

/-!
# Self-closing tags read back

A self-closing tag that was written is found where it stands, and its attributes are read back as
they were written. The blanks between them make no difference, and a value may hold what looks like
a part of a tag, as long as it holds no quote and no `>`.
-/

namespace StaticSite.Markup

open Text SpacedAttribute

theorem opensWith_readSelfClosing : readSelfClosing.OpensWith '<' := by
  intro s h
  cases s with
  | nil => rfl
  | cons c s => exact readSelfClosing_cons_of_ne (by simpa using h) s

/-- A match between texts without a `<` is the only one. -/
theorem spans_of_opensWith {α : Type} {read : Recogniser α} (opens : read.OpensWith '<')
    {before source after : Text} (hbefore : '<' ∉ before) (hafter : '<' ∉ after)
    (hne : source ≠ []) {a : α} (hread : read (source ++ after) = some (a, after)) :
    spans read (before ++ (source ++ after)) =
      [⟨before.length, before.length + source.length, source, a⟩] := by
  have hrest : ∀ position, place position (split read after) = [] := by
    intro position
    have hgaps : place position (split read (after ++ [])) = [] :=
      place_append_of_none (opens.eq_none hafter [])
    rwa [List.append_nil] at hgaps
  rw [spans, place_append_of_none (opens.eq_none hbefore _), Nat.zero_add,
    place_append_of_some hne hread, hrest]

/-- A written self-closing tag gives back its attributes as an ordered mapping, and between texts
without a `<` it is found once, at its place. -/
theorem selfClosing_roundTrip {as : List SpacedAttribute} (hne : as ≠ [])
    (h : ∀ a ∈ as, a.WellFormed) {last : Text} (hlast : ∀ c ∈ last, isBlank c) :
    (∃ props, selfClosingAttributes? (spacedTag as last) = some props ∧
      props.IsMapping (as.map entry)) ∧
    ∀ before after, '<' ∉ before → '<' ∉ after →
      selfClosingTags (before ++ (spacedTag as last ++ after)) =
        [⟨before.length, before.length + (spacedTag as last).length, spacedTag as last, ()⟩] := by
  refine ⟨⟨_, selfClosingAttributes?_spacedTag hne h hlast, Table.isMapping_ofList _⟩, ?_⟩
  intro before after hbefore hafter
  have htag : spacedTag as last ≠ [] := List.append_ne_nil_of_left_ne_nil (by decide) _
  exact spans_of_opensWith opensWith_readSelfClosing hbefore hafter htag
    (readSelfClosing_spacedTag hne h hlast after)

/-- A tag over several lines with a repeated name, and with values that look like parts of tags. -/
def trickyAttributes : List SpacedAttribute :=
  [⟨"\n\u3000", "src", "a/b"⟩, ⟨"\t", "data-x", "<Component y='1' /\x7b\x7b z \x7d\x7d"⟩,
    ⟨" ", "src", "c=/"⟩]

theorem selfClosing_roundTrip_tricky :
    (∃ props, selfClosingAttributes? (spacedTag trickyAttributes "\u2003\n") = some props ∧
      props.IsMapping [("src", "a/b"), ("data-x", "<Component y='1' /\x7b\x7b z \x7d\x7d"),
        ("src", "c=/")]) ∧
    selfClosingTags ("a > b" ++ (spacedTag trickyAttributes "\u2003\n" ++ "/>")) =
      [⟨5, 5 + (spacedTag trickyAttributes "\u2003\n").length,
        spacedTag trickyAttributes "\u2003\n", ()⟩] := by
  have hne : trickyAttributes ≠ [] := List.cons_ne_nil _ _
  have hlast : ∀ c ∈ "\u2003\n".toList, isBlank c := by decide
  obtain ⟨hread, hfound⟩ := selfClosing_roundTrip hne (by decide) hlast
  exact ⟨hread, hfound "a > b" "/>" (by decide) (by decide)⟩

end StaticSite.Markup
