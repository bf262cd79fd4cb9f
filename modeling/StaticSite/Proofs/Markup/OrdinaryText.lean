import StaticSite.Proofs.Markup.Hole
import StaticSite.Proofs.Text.Trim

/-!
# Ordinary text

In an ordinary text every `<` opens a comment, a declaration or a tag that begins with a letter
other than the one of components. Such texts stay ordinary when they are joined, trimmed, cut
before a brace or filled with plain values.
-/

namespace StaticSite.Markup

open Text

/-- Text that can stand between the quotes of an attribute. -/
def IsPlain (s : Text) : Prop := ∀ c ∈ s, c ∉ tagMarks

instance (s : Text) : Decidable (IsPlain s) := by unfold IsPlain; infer_instance

def isOtherLetter (c : Char) : Bool := c.isAlpha && c != 'C'

/-- Whether a `<` before the text opens something else than a component tag. -/
def opensOther : Text → Bool
  | [] => false
  | c :: s => c == '!' || isOtherLetter c || c == '/' && s.head?.any isOtherLetter

def isOrdinary : Text → Bool
  | [] => true
  | c :: s => (c != '<' || opensOther s) && isOrdinary s

theorem isBlank_of_isAlpha {c : Char} (h : c.isAlpha) : isBlank c = false := by
  have hc : 65 ≤ c.toNat ∧ c.toNat ≤ 122 := by
    have hval : c.toNat = c.val.toNat := rfl
    have hcases : (c.isUpper || c.isLower) = true := h
    rcases Bool.or_eq_true_iff.mp hcases with hupper | hlower
    · have hrange : 65 ≤ c.val ∧ c.val ≤ 90 := of_decide_eq_true hupper
      simp [UInt32.le_iff_toNat_le] at hrange
      omega
    · have hrange : (decide (97 ≤ c.val) && decide (c.val ≤ 122)) = true := hlower
      simp [UInt32.le_iff_toNat_le] at hrange
      omega
  simp [isBlank, inRanges, blankRanges]
  omega

/-- What stands after a `<` that opens no component. -/
inductive IsLead : Text → Prop
  | bang : IsLead ['!']
  | letter {c : Char} (h : isOtherLetter c) : IsLead [c]
  | slash {c : Char} (h : isOtherLetter c) : IsLead ['/', c]

theorem opensOther_iff {s : Text} :
    opensOther s ↔ ∃ lead rest, s = lead ++ rest ∧ IsLead lead := by
  constructor
  · intro h
    cases s with
    | nil => simp [opensOther] at h
    | cons c s =>
        simp only [opensOther, Bool.or_eq_true, Bool.and_eq_true, beq_iff_eq] at h
        rcases h with (rfl | h) | ⟨rfl, h⟩
        · exact ⟨['!'], s, rfl, .bang⟩
        · exact ⟨[c], s, rfl, .letter h⟩
        · cases s with
          | nil => simp at h
          | cons d s => exact ⟨['/', d], s, rfl, .slash (by simpa using h)⟩
  · rintro ⟨lead, rest, rfl, hlead⟩
    cases hlead with
    | bang => rfl
    | letter h => simp [opensOther, h]
    | slash h => simp [opensOther, h]

theorem IsLead.opensOther_append {lead : Text} (h : IsLead lead) (s : Text) :
    opensOther (lead ++ s) :=
  opensOther_iff.mpr ⟨lead, s, rfl, h⟩

theorem IsLead.ne_nil {lead : Text} (h : IsLead lead) : lead ≠ [] := by
  cases h <;> simp

theorem not_blank_of_isOtherLetter {c : Char} (h : isOtherLetter c) :
    isBlank c = false ∧ c ≠ '{' := by
  rw [isOtherLetter, Bool.and_eq_true] at h
  refine ⟨isBlank_of_isAlpha h.1, ?_⟩
  rintro rfl
  exact absurd h.1 (by decide)

theorem IsLead.not_blank {lead : Text} (h : IsLead lead) :
    ∀ c ∈ lead, isBlank c = false ∧ c ≠ '{' := by
  cases h with
  | bang => decide
  | letter hc =>
      intro d hd
      rw [List.mem_singleton.mp hd]
      exact not_blank_of_isOtherLetter hc
  | slash hc =>
      intro d hd
      rcases List.mem_cons.mp hd with rfl | hd
      · decide
      · rw [List.mem_singleton.mp hd]
        exact not_blank_of_isOtherLetter hc

@[simp] theorem isOrdinary_nil : isOrdinary [] := rfl

theorem isOrdinary_cons {c : Char} {s : Text} :
    isOrdinary (c :: s) ↔ (c = '<' → opensOther s) ∧ isOrdinary s := by
  simp [isOrdinary, Decidable.imp_iff_not_or]

theorem isOrdinary_append {s t : Text} (hs : isOrdinary s) (ht : isOrdinary t) :
    isOrdinary (s ++ t) := by
  induction s with
  | nil => exact ht
  | cons c s ih =>
      obtain ⟨hopen, hrest⟩ := isOrdinary_cons.mp hs
      rw [List.cons_append, isOrdinary_cons]
      refine ⟨fun hc => ?_, ih hrest⟩
      obtain ⟨lead, rest, rfl, hlead⟩ := opensOther_iff.mp (hopen hc)
      rw [List.append_assoc]
      exact hlead.opensOther_append _

theorem isOrdinary_of_append {s t : Text} (h : isOrdinary (s ++ t)) : isOrdinary t := by
  induction s with
  | nil => exact h
  | cons c s ih => exact ih (isOrdinary_cons.mp h).2

theorem isOrdinary_of_notMem {s : Text} (h : '<' ∉ s) : isOrdinary s := by
  induction s with
  | nil => rfl
  | cons c s ih =>
      rw [List.mem_cons, not_or] at h
      exact isOrdinary_cons.mpr ⟨fun hc => absurd hc.symm h.1, ih h.2⟩

theorem IsPlain.notMem {s : Text} (h : IsPlain s) : '<' ∉ s :=
  fun hmem => h _ hmem (by simp [tagMarks])

theorem IsPlain.isOrdinary {s : Text} (h : IsPlain s) : isOrdinary s :=
  isOrdinary_of_notMem h.notMem

/-- A lead never ends inside a hole, so cutting before a brace cuts no lead. -/
theorem isOrdinary_of_append_brace {s t : Text} (h : isOrdinary (s ++ '{' :: t)) :
    isOrdinary s := by
  induction s with
  | nil => rfl
  | cons c s ih =>
      obtain ⟨hopen, hrest⟩ := isOrdinary_cons.mp h
      refine isOrdinary_cons.mpr ⟨fun hc => ?_, ih hrest⟩
      obtain ⟨lead, rest, heq, hlead⟩ := opensOther_iff.mp (hopen hc)
      rcases List.append_eq_append_iff.mp heq with ⟨more, hmore, hbrace⟩ | ⟨more, rfl, -⟩
      · cases more with
        | nil => exact opensOther_iff.mpr ⟨lead, [], by simpa using hmore.symm, hlead⟩
        | cons d more =>
            rw [List.cons_append, List.cons.injEq] at hbrace
            exact absurd hbrace.1.symm (hlead.not_blank d (by simp [hmore])).2
      · exact hlead.opensOther_append _

theorem fill_lead_append (name value : Text) {lead : Text} (h : ∀ c ∈ lead, c ≠ '{') (s : Text) :
    fill name value (lead ++ s) = lead ++ fill name value s := by
  induction lead with
  | nil => rfl
  | cons c lead ih =>
      rw [List.cons_append, fill_cons_of_ne name value (h c (by simp)),
        ih fun d hd => h d (by simp [hd]), List.cons_append]

theorem isOrdinary_fill {name value : Text} (hvalue : IsPlain value) {s : Text}
    (h : isOrdinary s) : isOrdinary (fill name value s) := by
  induction s using split_induction (consumes_readHole name) with
  | nil => rfl
  | gap c s hs ih =>
      obtain ⟨hopen, hrest⟩ := isOrdinary_cons.mp h
      rw [fill, replaceAll_cons_of_none _ hs]
      refine isOrdinary_cons.mpr ⟨fun hc => ?_, ih hrest⟩
      obtain ⟨lead, rest, rfl, hlead⟩ := opensOther_iff.mp (hopen hc)
      have heq := fill_lead_append name value (fun d hd => (hlead.not_blank d hd).2) rest
      rw [fill] at heq
      rw [heq]
      exact hlead.opensOther_append _
  | hit a source rest hne hs ih =>
      rw [fill_of_readHole name value hne hs]
      exact isOrdinary_append hvalue.isOrdinary (ih (isOrdinary_of_append h))

theorem IsLead.trimEnd_append {lead : Text} (h : IsLead lead) (s : Text) :
    trimEnd (lead ++ s) = lead ++ trimEnd s := by
  cases h with
  | bang => exact trimEnd_append_cons (by decide) [] s
  | letter hc => exact trimEnd_append_cons (not_blank_of_isOtherLetter hc).1 [] s
  | slash hc => exact trimEnd_append_cons (not_blank_of_isOtherLetter hc).1 ['/'] s

theorem isOrdinary_trimEnd {s : Text} (h : isOrdinary s) : isOrdinary (trimEnd s) := by
  induction s with
  | nil => rfl
  | cons c s ih =>
      obtain ⟨hopen, hrest⟩ := isOrdinary_cons.mp h
      rcases trimEnd_cons c s with heq | heq
      · rw [heq]
        rfl
      · rw [heq, isOrdinary_cons]
        refine ⟨fun hc => ?_, ih hrest⟩
        obtain ⟨lead, rest, rfl, hlead⟩ := opensOther_iff.mp (hopen hc)
        rw [hlead.trimEnd_append]
        exact hlead.opensOther_append _

theorem isOrdinary_dropBlanks {s : Text} (h : isOrdinary s) : isOrdinary (dropBlanks s) := by
  rw [← blanks_append_dropBlanks s] at h
  exact isOrdinary_of_append h

end StaticSite.Markup
