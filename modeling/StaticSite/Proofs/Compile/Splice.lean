import StaticSite.Compile.Expansion
import StaticSite.Proofs.Compile.Ensures
import StaticSite.Proofs.Markup.Places

/-!
# Splicing piece by piece

`splice` counts places from the start of the text. Here it is read along the text: a stretch
before the first span stays, and a span at the front gives way to its expansion.
-/

namespace StaticSite

open Markup Text

section Steps

variable {α : Type} {start stop : α → Nat} {expand : α → Engine Text}

theorem splice_append {position : Nat} {s : Text} {as : List α}
    (h : ∀ a ∈ as, position + s.length ≤ start a ∧ start a ≤ stop a) (rest : Text) :
    splice start stop expand position (s ++ rest) as =
      (s ++ ·) <$> splice start stop expand (position + s.length) rest as := by
  cases as with
  | nil => simp [splice]
  | cons a as =>
      obtain ⟨hstart, hstop⟩ := h a (by simp)
      have htake : (s ++ rest).take (start a - position) =
          s ++ rest.take (start a - (position + s.length)) := by
        rw [List.take_append, List.take_of_length_le (by omega)]
        congr 2
        omega
      have hdrop : (s ++ rest).drop (stop a - position) =
          rest.drop (stop a - (position + s.length)) := by
        rw [List.drop_append, List.drop_of_length_le (by omega), List.nil_append]
        congr 1
        omega
      simp [splice, htake, hdrop]

theorem splice_cons {position : Nat} {source : Text} {a : α} (hstart : start a = position)
    (hstop : stop a = position + source.length) (rest : Text) (as : List α) :
    splice start stop expand position (source ++ rest) (a :: as) =
      (do
        let expansion ← expand a
        (expansion ++ ·) <$> splice start stop expand (position + source.length) rest as) := by
  simp [splice, hstart, hstop]

end Steps

section Matches

variable {α : Type} {read : Recogniser α} {files : SiteTree}

theorem replaceAll_source (consumes : read.Consumes) (s : Text) :
    replaceAll read (fun _ source => source) s = s := by
  have hpiece : (Piece.replaced fun (_ : α) source => source) = Piece.source := by
    funext p
    cases p <;> rfl
  rw [replaceAll, hpiece, source_split consumes]

/-- Splicing what a search found replaces every match. -/
theorem ensures_splice_replaceAll (consumes : read.Consumes) {expand : Span α → Engine Text}
    (write : α → Text → Text) {position : Nat} {s : Text}
    (h : ∀ tag ∈ place position (split read s),
      (expand tag).Ensures files (· = write tag.value tag.source)) :
    (splice Span.start Span.stop expand position s (place position (split read s))).Ensures files
      (· = replaceAll read write s) := by
  induction s using split_induction consumes generalizing position with
  | nil => exact Engine.ensures_pure rfl
  | gap c t hread ih =>
      rw [split_cons_of_none hread] at h ⊢
      have hbounds : ∀ a ∈ place position (.gap c :: split read t),
          position + [c].length ≤ a.start ∧ a.start ≤ a.stop := fun a ha =>
        le_start_of_mem_place ha
      rw [← List.singleton_append, splice_append hbounds]
      refine Engine.ensures_map ((ih h).mono fun out hout => ?_)
      rw [hout, List.singleton_append, List.singleton_append,
        replaceAll_cons_of_none write hread]
  | hit a source rest hne hread ih =>
      rw [split_of_some hne hread] at h ⊢
      rw [place, splice_cons]
      · refine (h _ List.mem_cons_self).bind fun expansion hexpansion => ?_
        have hrest := ih fun tag htag => h tag (List.mem_cons_of_mem _ htag)
        refine Engine.ensures_map (hrest.mono fun out hout => ?_)
        rw [hexpansion, hout, replaceAll_of_some write hne hread]
      · rfl
      · rfl

end Matches

section Elements

variable {files : SiteTree} {patch : Text}

/-- A text in which some elements have given way to a patch. -/
inductive Patched (patch : Text) : Text → Text → Prop
  | refl (s : Text) : Patched patch s s
  | element (before : Text) {source rest out : Text} (h : IsElement source)
      (hrest : Patched patch rest out) :
      Patched patch (before ++ (source ++ rest)) (before ++ (patch ++ out))

theorem ensures_splice_patched {expand : Reference → Engine Text} {position : Nat} {s : Text}
    {rs : List Reference} (h : Elements position s rs)
    (hexpand : ∀ r ∈ rs, r.identifier ≠ [] → (expand r).Ensures files (· = patch)) :
    (splice Reference.start Reference.stop expand position s rs).Ensures files fun out =>
      Patched patch s out ∧
        (rs = [] ∧ out = s ∨ ∃ before rest, out = before ++ (patch ++ rest)) := by
  induction h with
  | nil position s => exact Engine.ensures_pure ⟨.refl s, .inl ⟨rfl, rfl⟩⟩
  | @cons position before source rest r rs hstart hstop hname hsource hrest ih =>
      have htail := ih fun a ha => hexpand a (List.mem_cons_of_mem r ha)
      have htake : (before ++ (source ++ rest)).take (r.start - position) = before := by
        rw [hstart, Nat.add_sub_cancel_left, List.take_left]
      have hdrop : (before ++ (source ++ rest)).drop (r.stop - position) = rest := by
        have hlength : r.stop - position = (before ++ source).length := by
          rw [List.length_append]
          omega
        rw [hlength, ← List.append_assoc, List.drop_left]
      rw [splice, htake, hdrop]
      refine (hexpand r List.mem_cons_self hname).bind ?_
      rintro _ rfl
      refine htail.bind fun tail htail => Engine.ensures_pure ?_
      rw [List.append_assoc]
      exact ⟨.element before hsource htail.1, .inr ⟨before, tail, rfl⟩⟩

end Elements

end StaticSite
