import StaticSite.Markup.Reference
import StaticSite.Proofs.Markup.OrdinaryText

/-!
# Documents

A document is a page taken apart: stretches of ordinary text, self-closing references, and
references around documents. `Document.render` writes it as a page.
-/

namespace StaticSite.Markup

open Text

inductive Document
  | empty
  | text (s : Text) (rest : Document)
  | selfClosing (attributes : List (Text × Text)) (rest : Document)
  | around (identifier : Text) (attributes : List (Text × Text)) (inside rest : Document)

def renderAttributes (attributes : List (Text × Text)) : Text :=
  attributes.flatMap fun a => ' ' :: a.1 ++ "=\"" ++ a.2 ++ "\""

def renderSelfClosing (attributes : List (Text × Text)) : Text :=
  "<Component" ++ renderAttributes attributes ++ " />"

def renderOpening (identifier : Text) (attributes : List (Text × Text)) : Text :=
  "<Component name=\"" ++ identifier ++ "\"" ++ renderAttributes attributes ++ ">"

def renderClosing : Text := "</Component>"

theorem renderSelfClosing_eq_append (attributes : List (Text × Text)) :
    renderSelfClosing attributes =
      "<Component" ++ renderAttributes attributes ++ " /" ++ ['>'] := by
  unfold renderSelfClosing
  simp

theorem renderClosing_eq_append : renderClosing = "</Component" ++ ['>'] := by
  unfold renderClosing
  simp

structure IsAttribute (style : NameStyle) (a : Text × Text) : Prop where
  ne_nil : a.1 ≠ []
  inName : ∀ c ∈ a.1, style.inName c
  plain : IsPlain a.2

instance (style : NameStyle) (a : Text × Text) : Decidable (IsAttribute style a) :=
  decidable_of_iff (a.1 ≠ [] ∧ (∀ c ∈ a.1, style.inName c) ∧ IsPlain a.2)
    ⟨fun h => ⟨h.1, h.2.1, h.2.2⟩, fun h => ⟨h.1, h.2, h.3⟩⟩

structure IsIdentifier (i : Text) : Prop where
  ne_nil : i ≠ []
  plain : IsPlain i
  no_brace : '{' ∉ i ∧ '}' ∉ i

instance (i : Text) : Decidable (IsIdentifier i) :=
  decidable_of_iff (i ≠ [] ∧ IsPlain i ∧ '{' ∉ i ∧ '}' ∉ i)
    ⟨fun h => ⟨h.1, h.2.1, h.2.2⟩, fun h => ⟨h.1, h.2, h.3⟩⟩

namespace Document

def render : Document → Text
  | empty => []
  | text s rest => s ++ rest.render
  | selfClosing attributes rest => renderSelfClosing attributes ++ rest.render
  | around identifier attributes inside rest =>
      renderOpening identifier attributes ++ inside.render ++ renderClosing ++ rest.render

def WellFormed : Document → Prop
  | empty => True
  | text s rest => isOrdinary s ∧ rest.WellFormed
  | selfClosing attributes rest =>
      (∃ a ∈ attributes, a.1 = sourceName) ∧ (∀ a ∈ attributes, IsAttribute .hyphenated a) ∧
        rest.WellFormed
  | around identifier attributes inside rest =>
      IsIdentifier identifier ∧ (∀ a ∈ attributes, IsAttribute .plain a) ∧ inside.WellFormed ∧
        rest.WellFormed

instance decidableWellFormed : (d : Document) → Decidable d.WellFormed
  | empty => .isTrue trivial
  | text _ rest =>
      have := decidableWellFormed rest
      inferInstanceAs (Decidable (_ ∧ _))
  | selfClosing _ rest =>
      have := decidableWellFormed rest
      inferInstanceAs (Decidable (_ ∧ _ ∧ _))
  | around _ _ inside rest =>
      have := decidableWellFormed inside
      have := decidableWellFormed rest
      inferInstanceAs (Decidable (_ ∧ _ ∧ _ ∧ _))

def values : Document → List Text
  | empty => []
  | text _ rest => rest.values
  | selfClosing attributes rest => attributes.map (·.2) ++ rest.values
  | around _ attributes inside rest =>
      attributes.map (·.2) ++ inside.values ++ rest.values

def append : Document → Document → Document
  | empty, e => e
  | text s rest, e => text s (rest.append e)
  | selfClosing attributes rest, e => selfClosing attributes (rest.append e)
  | around identifier attributes inside rest, e =>
      around identifier attributes inside (rest.append e)

theorem render_append (d e : Document) : (d.append e).render = d.render ++ e.render := by
  induction d with
  | empty => rfl
  | text s rest ih => simp [append, render, ih]
  | selfClosing attributes rest ih => simp [append, render, ih]
  | around identifier attributes inside rest _ ih => simp [append, render, ih]

theorem wellFormed_append {d e : Document} (hd : d.WellFormed) (he : e.WellFormed) :
    (d.append e).WellFormed := by
  induction d with
  | empty => exact he
  | text s rest ih => exact ⟨hd.1, ih hd.2⟩
  | selfClosing attributes rest ih => exact ⟨hd.1, hd.2.1, ih hd.2.2⟩
  | around identifier attributes inside rest _ ih =>
      exact ⟨hd.1, hd.2.1, hd.2.2.1, ih hd.2.2.2⟩

/-! ## Trimming -/

def trimStart : Document → Document
  | text s rest => if dropBlanks s = [] then rest.trimStart else text (dropBlanks s) rest
  | d => d

/-- A text after which only blanks come loses the blanks at its end, and nothing follows it. -/
def trimEnd : Document → Document
  | empty => empty
  | text s rest =>
      if Text.trimEnd rest.render = [] then text (Text.trimEnd s) empty else text s rest.trimEnd
  | selfClosing attributes rest => selfClosing attributes rest.trimEnd
  | around identifier attributes inside rest =>
      around identifier attributes inside rest.trimEnd

def trim (d : Document) : Document := d.trimStart.trimEnd

theorem render_trimStart (d : Document) : d.trimStart.render = dropBlanks d.render := by
  have hmark : isBlank '<' = false := by decide
  induction d with
  | empty => rfl
  | text s rest ih =>
      have happ : dropBlanks (s ++ rest.render) =
          if dropBlanks s = [] then dropBlanks rest.render else dropBlanks s ++ rest.render := by
        unfold dropBlanks
        rw [List.dropWhile_append]
        simp only [List.isEmpty_iff]
      rw [trimStart, render, happ]
      split
      · exact ih
      · rfl
  | selfClosing attributes rest _ => exact (dropWhile_append_cons hmark [] _).symm
  | around identifier attributes inside rest _ _ => exact (dropWhile_append_cons hmark [] _).symm

theorem render_trimEnd (d : Document) : d.trimEnd.render = Text.trimEnd d.render := by
  have hmark : isBlank '>' = false := by decide
  induction d with
  | empty => rfl
  | text s rest ih =>
      rw [trimEnd, render, Text.trimEnd_append]
      split
      · exact List.append_nil _
      · rw [render, ih]
  | selfClosing attributes rest ih =>
      have happ := trimEnd_append_cons hmark ("<Component" ++ renderAttributes attributes ++ " /")
        rest.render
      rw [trimEnd, render, render, ih, renderSelfClosing_eq_append]
      simpa only [List.append_assoc, List.singleton_append] using happ.symm
  | around identifier attributes inside rest _ ih =>
      have happ := trimEnd_append_cons hmark
        (renderOpening identifier attributes ++ inside.render ++ "</Component") rest.render
      rw [trimEnd, render, render, ih, renderClosing_eq_append]
      simpa only [List.append_assoc, List.singleton_append] using happ.symm

theorem render_trim (d : Document) : d.trim.render = Text.trim d.render := by
  rw [trim, render_trimEnd, render_trimStart, trim_eq]

theorem wellFormed_trimStart {d : Document} (h : d.WellFormed) : d.trimStart.WellFormed := by
  induction d with
  | text s rest ih =>
      rw [trimStart]
      split
      · exact ih h.2
      · exact ⟨isOrdinary_dropBlanks h.1, h.2⟩
  | empty => exact h
  | selfClosing attributes rest _ => exact h
  | around identifier attributes inside rest _ _ => exact h

theorem wellFormed_trimEnd {d : Document} (h : d.WellFormed) : d.trimEnd.WellFormed := by
  induction d with
  | empty => exact h
  | text s rest ih =>
      rw [trimEnd]
      split
      · exact ⟨isOrdinary_trimEnd h.1, trivial⟩
      · exact ⟨h.1, ih h.2⟩
  | selfClosing attributes rest ih => exact ⟨h.1, h.2.1, ih h.2.2⟩
  | around identifier attributes inside rest _ ih =>
      exact ⟨h.1, h.2.1, h.2.2.1, ih h.2.2.2⟩

theorem wellFormed_trim {d : Document} (h : d.WellFormed) : d.trim.WellFormed :=
  wellFormed_trimEnd (wellFormed_trimStart h)

end Document

end StaticSite.Markup
