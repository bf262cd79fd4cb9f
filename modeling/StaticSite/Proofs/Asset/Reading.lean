import StaticSite.Asset.Inline
import StaticSite.Proofs.Text.LetterCase

/-!
# Reading asset tags

Stylesheet links and scripts are read from a `<` on, and a match is a stretch of the text.
-/

namespace StaticSite

namespace Text

variable {α : Type}

/-- What is left after a match is an end of the text. -/
def Recogniser.Leaves (read : Recogniser α) : Prop :=
  ∀ s a rest, read s = some (a, rest) → rest <:+ s

theorem leaves_readFirst? {read : Recogniser α} (leaves : read.Leaves) :
    Recogniser.Leaves (readFirst? read) := by
  intro s a rest h
  obtain ⟨u, hu, hread⟩ := exists_of_readFirst? h
  exact (leaves _ _ _ hread).trans hu

theorem suffix_of_afterFolded? {mark s rest : Text} (h : afterFolded? mark s = some rest) :
    rest <:+ s := by
  obtain ⟨written, -, rfl⟩ := afterFolded?_eq_some_iff.mp h
  exact List.suffix_append written rest

theorem suffix_of_cut? {c : Char} {s left rest : Text} (h : cut? c s = some (left, rest)) :
    rest <:+ s := by
  obtain ⟨rfl, -⟩ := cut?_eq_some_iff.mp h
  exact (List.suffix_cons c rest).trans (List.suffix_append left _)

/-- A match that begins with a word in any letter case takes at least that word. -/
theorem exists_of_afterFolded? {a : Char} {mark s opened rest : Text}
    (h : afterFolded? (a :: mark) s = some opened) (hrest : rest <:+ opened) :
    ∃ source, source ≠ [] ∧ s = source ++ rest := by
  obtain ⟨written, hsame, rfl⟩ := afterFolded?_eq_some_iff.mp h
  obtain ⟨c, more, rfl, -, -⟩ := sameLetters_cons_iff.mp hsame
  obtain ⟨middle, rfl⟩ := hrest
  exact ⟨c :: more ++ middle, by simp, by simp⟩

end Text

namespace Asset

open Text

theorem isCaseless_open : isCaseless '<' := by decide +kernel

theorem isCaseless_close : isCaseless '>' := by decide +kernel

theorem suffix_of_mem_tailsFrom {count : Nat} {s t : Text} (h : t ∈ tailsFrom count s) :
    t <:+ s := by
  obtain ⟨k, -, rfl⟩ := List.mem_map.mp h
  exact List.drop_suffix k s

theorem anyTail_iff {p : Text → Bool} {s : Text} : anyTail p s ↔ ∃ u, u <:+ s ∧ p u := by
  induction s with
  | nil => simp [anyTail]
  | cons c s ih =>
      rw [anyTail, Bool.or_eq_true, ih]
      constructor
      · rintro (h | ⟨u, hu, h⟩)
        · exact ⟨c :: s, List.suffix_refl _, h⟩
        · exact ⟨u, hu.trans (List.suffix_cons c s), h⟩
      · rintro ⟨u, hu, h⟩
        rcases List.suffix_cons_iff.mp hu with rfl | hu
        · exact .inl h
        · exact .inr ⟨u, hu, h⟩

theorem anyTail_of_suffix {p : Text → Bool} {s t : Text} (hs : s <:+ t) (h : anyTail p s) :
    anyTail p t := by
  obtain ⟨u, hu, hp⟩ := anyTail_iff.mp h
  exact anyTail_iff.mpr ⟨u, hu.trans hs, hp⟩

/-! ## What is left after a match -/

theorem leaves_readQuotedValue : Recogniser.Leaves readQuotedValue := by
  intro s value rest h
  cases s with
  | nil => cases h
  | cons q s =>
      rw [readQuotedValue] at h
      split at h
      · cases h
      · cases hdrop : s.dropWhile (!isQuote ·) with
        | nil => simp [hdrop] at h
        | cons c more =>
            rw [hdrop] at h
            cases h
            have hmore : c :: rest <:+ s := hdrop ▸ List.dropWhile_suffix _
            exact (List.suffix_cons c rest).trans (hmore.trans (List.suffix_cons q s))

theorem leaves_readScriptEnd : Recogniser.Leaves readScriptEnd := by
  intro s reference rest h
  simp only [readScriptEnd, Option.bind_eq_bind, Option.bind_eq_some_iff] at h
  obtain ⟨named, hnamed, ⟨value, after⟩, hvalue, ⟨left, closed⟩, hcut, last, hlast, h⟩ := h
  cases h
  exact (suffix_of_afterFolded? hlast).trans ((suffix_of_cut? hcut).trans
    ((leaves_readQuotedValue _ _ _ hvalue).trans (suffix_of_afterFolded? hnamed)))

/-- Reads the end of a script element. -/
def readScriptClosing : Recogniser Unit := fun s =>
  (afterFolded? "</script>" s).map fun rest => ((), rest)

theorem leaves_readScriptClosing : readScriptClosing.Leaves := by
  intro s a rest h
  obtain ⟨_, hafter, heq⟩ := Option.map_eq_some_iff.mp h
  cases heq
  exact suffix_of_afterFolded? hafter

theorem leaves_readMarkedEnd (marker : Text) : Recogniser.Leaves (readMarkedEnd marker) := by
  intro s a rest h
  simp only [readMarkedEnd, Option.bind_eq_bind, Option.bind_eq_some_iff] at h
  obtain ⟨after, hmarker, ⟨left, content⟩, hcut, h⟩ := h
  exact (leaves_readFirst? leaves_readScriptClosing _ _ _ h).trans
    ((suffix_of_cut? hcut).trans (suffix_of_afterFolded? hmarker))

/-! ## Matches -/

theorem consumes_readStylesheetLink : Recogniser.Consumes readStylesheetLink := by
  intro s a rest h
  simp only [readStylesheetLink, Option.bind_eq_bind, Option.bind_eq_some_iff] at h
  obtain ⟨opened, hopen, ⟨body, more⟩, hcut, h⟩ := h
  split at h
  · cases h
    exact exists_of_afterFolded? hopen (suffix_of_cut? hcut)
  · cases h

theorem consumes_readScript : Recogniser.Consumes readScript := by
  intro s reference rest h
  simp only [readScript, Option.bind_eq_bind, Option.bind_eq_some_iff] at h
  obtain ⟨opened, hopen, h⟩ := h
  obtain ⟨tail, htail, h⟩ := List.exists_of_findSome?_eq_some h
  have hsuffix := suffix_of_mem_tailsFrom ((List.dropLast_sublist _).subset htail)
  exact exists_of_afterFolded? hopen ((leaves_readScriptEnd _ _ _ h).trans hsuffix)

theorem consumes_readMarkedScript (marker : Text) :
    Recogniser.Consumes (readMarkedScript marker) := by
  intro s a rest h
  simp only [readMarkedScript, Option.bind_eq_bind, Option.bind_eq_some_iff] at h
  obtain ⟨opened, hopen, h⟩ := h
  obtain ⟨tail, htail, h⟩ := List.exists_of_findSome?_eq_some h
  exact exists_of_afterFolded? hopen
    ((leaves_readMarkedEnd marker _ _ _ h).trans (suffix_of_mem_tailsFrom htail))

theorem afterFolded?_open {mark s : Text} (h : s.head? ≠ some '<') :
    afterFolded? ('<' :: mark) s = none := by
  cases s with
  | nil => rfl
  | cons c s => exact afterFolded?_cons_of_ne isCaseless_open (by simpa using h) mark s

theorem opensWith_readStylesheetLink : Recogniser.OpensWith readStylesheetLink '<' := by
  intro s h
  have hopen : afterFolded? "<link" s = none := afterFolded?_open h
  rw [readStylesheetLink, hopen]
  rfl

theorem opensWith_readScript : Recogniser.OpensWith readScript '<' := by
  intro s h
  have hopen : afterFolded? "<script" s = none := afterFolded?_open h
  rw [readScript, hopen]
  rfl

theorem opensWith_readMarkedScript (marker : Text) :
    Recogniser.OpensWith (readMarkedScript marker) '<' := by
  intro s h
  have hopen : afterFolded? "<script" s = none := afterFolded?_open h
  rw [readMarkedScript, hopen]
  rfl

/-! ## No matches -/

theorem afterFolded?_script_of_slash (s : Text) :
    afterFolded? "<script" ('<' :: '/' :: s) = none := by
  have hmark : "<script".toList = '<' :: 's' :: "cript".toList := rfl
  have hslash : sameLetter 's' '/' = false := by decide +kernel
  rw [hmark, afterFolded?, afterFolded?, hslash]
  simp

theorem readScript_slash (s : Text) : readScript ('<' :: '/' :: s) = none := by
  rw [readScript, afterFolded?_script_of_slash]
  rfl

theorem readMarkedScript_slash (marker s : Text) :
    readMarkedScript marker ('<' :: '/' :: s) = none := by
  rw [readMarkedScript, afterFolded?_script_of_slash]
  rfl

theorem readMarkedScript_bare {marker : Text} (hne : marker ≠ []) (hhead : marker.head? ≠ some '>')
    (s : Text) : readMarkedScript marker ("<script>" ++ s) = none := by
  have hform : "<script>".toList ++ s = "<script" ++ ('>' :: s) := rfl
  have hmarker : afterFolded? marker ('>' :: s) = none := by
    cases marker with
    | nil => exact absurd rfl hne
    | cons a marker =>
        have hletter : ¬sameLetter a '>' := by
          have hcomm : sameLetter a '>' = sameLetter '>' a := BEq.comm
          rw [hcomm, sameLetter_iff_of_caseless isCaseless_close]
          simpa using hhead
        rw [afterFolded?, if_neg hletter]
  have hend : readMarkedEnd marker ('>' :: s) = none := by
    rw [readMarkedEnd, hmarker]
    rfl
  have hopen : afterFolded? "<script" ("<script" ++ ('>' :: s)) = some ('>' :: s) :=
    afterFolded?_append _ _
  have hbody : ('>' :: s).takeWhile (· != '>') = [] := rfl
  have htails : tailsFrom 0 ('>' :: s) = ['>' :: s] := rfl
  rw [hform, readMarkedScript, hopen]
  simp only [Option.bind_eq_bind, Option.bind_some, hbody, List.length_nil, htails,
    List.findSome?_singleton, hend]

end Asset

end StaticSite
