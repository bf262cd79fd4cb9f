import StaticSite.Proofs.Markup.Pairs
import StaticSite.Proofs.Markup.Peel

/-!
# Sealed references and comments

A tag ends at its first `>` and a quoted value at its first quote, however malformed the text
around them is. So what a tag says, as identifier or as prop, can hold neither. A comment with no
`>` but its last is passed by the search for self-closing tags as a whole: no tag starts in it or
reaches into it.
-/

namespace StaticSite.Markup

open Text

/-- Text that ends neither a quoted value nor a tag. -/
def IsSealed (s : Text) : Prop := '"' ∉ s ∧ '>' ∉ s

instance (s : Text) : Decidable (IsSealed s) := inferInstanceAs (Decidable (_ ∧ _))

/-- A reference of which no text can end a quoted value or a tag. -/
structure Reference.IsSealed (r : Reference) : Prop where
  identifier : Markup.IsSealed r.identifier
  props : ∀ e ∈ r.props.entries, Markup.IsSealed e.2

instance (r : Reference) : Decidable r.IsSealed :=
  decidable_of_iff (Markup.IsSealed r.identifier ∧ ∀ e ∈ r.props.entries, Markup.IsSealed e.2)
    ⟨fun h => ⟨h.1, h.2⟩, fun h => ⟨h.1, h.2⟩⟩

section Attributes

variable {style : NameStyle} {region : Text}

theorem isSealed_of_mem_attributes (hregion : '>' ∉ region) {e : Text × Text}
    (he : e ∈ (attributes style region).entries) : IsSealed e.2 := by
  obtain ⟨u, rest, hu, hread⟩ := exists_of_mem_readAll (Table.mem_of_mem_ofList he)
  obtain ⟨-, -, hquote, hform⟩ := eq_of_readAttribute hread
  refine ⟨hquote, fun hmark => hregion (hu.subset ?_)⟩
  rw [hform]
  simp [hmark]

theorem notMem_dropBlanks {body : Text} (h : '>' ∉ body) : '>' ∉ dropBlanks body :=
  fun hmark => h ((List.dropWhile_suffix isBlank).subset hmark)

theorem notMem_of_readAttributeRegion {s rest : Text}
    (h : readAttributeRegion s = some (region, rest)) : '>' ∉ region := by
  unfold readAttributeRegion at h
  simp only [Option.bind_eq_bind, Option.bind_eq_some_iff] at h
  obtain ⟨opened, -, ⟨body, more⟩, hcut, h⟩ := h
  have hbody : '>' ∉ body.dropLast :=
    fun hmark => (cut?_eq_some_iff.mp hcut).2 (List.dropLast_subset body hmark)
  split at h
  · cases h
  · dsimp only at h
    by_cases hblanks : (blanks body.dropLast).length <
        if (dropBlanks body.dropLast).isEmpty then 2 else 1
    · rw [if_pos hblanks] at h
      cases h
    · rw [if_neg hblanks] at h
      cases h
      exact notMem_dropBlanks hbody

theorem isSealed_of_namedComponent? {body identifier : Text} (hbody : '>' ∉ body)
    (h : namedComponent? body = some (identifier, region)) :
    IsSealed identifier ∧ '>' ∉ region := by
  unfold namedComponent? at h
  simp only [Option.bind_eq_bind] at h
  split at h
  · cases h
  · simp only [Option.bind_eq_some_iff] at h
    obtain ⟨opened, hopen, ⟨found, more⟩, hcut, h⟩ := h
    rw [after?_eq_some_iff] at hopen
    obtain ⟨hopened, hquote⟩ := cut?_eq_some_iff.mp hcut
    have hdrop := notMem_dropBlanks hbody
    rw [hopen, hopened] at hdrop
    split at h
    · cases h
    · cases h
      simp only [List.mem_append, List.mem_cons, not_or] at hdrop
      exact ⟨⟨hquote, hdrop.2.1⟩, hdrop.2.2.2⟩

end Attributes

theorem notMem_of_readTag_opening {s body rest : Text}
    (h : readTag s = some (.opening body, rest)) : '>' ∉ body := by
  unfold readTag at h
  split at h
  · split at h <;> cases h
  · simp only [Option.bind_eq_bind, Option.bind_eq_some_iff] at h
    obtain ⟨opened, -, h⟩ := h
    split at h
    · cases h
    · simp only [Option.bind_eq_some_iff] at h
      obtain ⟨⟨found, more⟩, hcut, h⟩ := h
      dsimp only at h
      split at h
      · cases h
      · cases h
        exact (cut?_eq_some_iff.mp hcut).2

/-- Every reference with children is sealed, whatever the text. -/
theorem isSealed_of_mem_childReferences {html : Text} {r : Reference}
    (h : r ∈ childReferences html) : r.IsSealed := by
  obtain ⟨p, -, hr⟩ := mem_childReferences_iff.mp h
  obtain ⟨⟨identifier, region⟩, hname, rfl⟩ := Option.map_eq_some_iff.mp hr
  have hopening : p.opening ∈ spans readTag html := List.mem_of_getElem? p.opens
  obtain ⟨left, right, -, -, -, hread⟩ := exists_of_mem_place consumes_readTag [] hopening
  rw [p.isOpening] at hread
  obtain ⟨hidentifier, hregion⟩ :=
    isSealed_of_namedComponent? (notMem_of_readTag_opening hread) hname
  exact ⟨hidentifier, fun e he => isSealed_of_mem_attributes hregion he⟩

/-- Every reference that a self-closing tag makes is sealed, whatever the tag. -/
theorem isSealed_of_selfClosingReference? {tag : Span Unit} {r : Reference}
    (h : selfClosingReference? tag = some r) : r.IsSealed := by
  unfold selfClosingReference? selfClosingAttributes? Reference.ofSelfClosing? at h
  simp only [Option.bind_eq_bind, Option.bind_eq_some_iff, Option.map_eq_some_iff] at h
  obtain ⟨props, ⟨⟨region, more⟩, hregion, rfl⟩, identifier, hget, h⟩ := h
  cases h
  obtain ⟨u, -, hread⟩ := exists_of_readFirst? hregion
  have hmark := notMem_of_readAttributeRegion hread
  exact ⟨isSealed_of_mem_attributes hmark (Table.mem_of_get?_eq_some hget),
    fun e he => isSealed_of_mem_attributes hmark he⟩

/-! ## Comments -/

/-- One comment and nothing more: the only `>` is the one that ends it. -/
def IsComment (s : Text) : Prop := ∃ body, s = "<!--" ++ body ++ "-->" ∧ '>' ∉ body

/-- A comment is passed over as a whole. -/
theorem split_append_comment {s : Text} (h : IsComment s) (before after : Text) :
    split readSelfClosing (before ++ (s ++ after)) =
      split readSelfClosing before ++ (s.map .gap ++ split readSelfClosing after) := by
  obtain ⟨body, rfl, hbody⟩ := h
  have hfront : '>' ∉ "<!--" ++ body ++ "-" := by simp [hbody]
  have hjoined : before ++ ("<!--" ++ body ++ "-->" ++ after) =
      before ++ ("<!--" ++ body ++ "-") ++ '-' :: '>' :: after := by simp
  rw [hjoined, split_append_of_ne (by decide) (by decide), split_append_of_notMem hfront]
  simp

end StaticSite.Markup
