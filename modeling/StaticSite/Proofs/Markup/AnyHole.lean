import Mathlib.Data.List.TakeWhile
import StaticSite.Proofs.Markup.Reading
import StaticSite.Proofs.Text.Moved

/-!
# Emptying holes

A hole of any name holds nothing but braces, blanks, and word characters. So emptying the holes of
a page works on the stretches between other characters one by one.
-/

namespace StaticSite.Markup

open Text

/-- A hole as it is written. -/
structure HoleText where
  before : Text
  name : Text
  after : Text
  ne_nil : name ≠ []
  isWord_name : ∀ c ∈ name, isWord c
  isBlank_before : ∀ c ∈ before, isBlank c
  isBlank_after : ∀ c ∈ after, isBlank c

def HoleText.text (h : HoleText) : Text :=
  holeStart ++ (h.before ++ (h.name ++ (h.after ++ holeEnd)))

theorem isWord_of_isBlank {c : Char} (h : isBlank c) : isWord c = false := by
  have hword := isHyphenWord_of_isBlank h
  rw [isHyphenWord, Bool.or_eq_false_iff] at hword
  exact hword.2

theorem HoleText.readAnyHole_append (h : HoleText) (rest : Text) :
    readAnyHole (h.text ++ rest) = some (h.name, rest) := by
  have hform : h.text ++ rest =
      holeStart ++ (h.before ++ (h.name ++ (h.after ++ (holeEnd ++ rest)))) := by
    simp only [text, List.append_assoc]
  have hblanks : dropBlanks (h.before ++ (h.name ++ (h.after ++ (holeEnd ++ rest)))) =
      h.name ++ (h.after ++ (holeEnd ++ rest)) := by
    refine (takeWhile_append_of_head h.isBlank_before fun c hc => ?_).2
    obtain ⟨a, name, hname⟩ := List.exists_cons_of_ne_nil h.ne_nil
    rw [hname] at hc
    cases hc
    cases hblank : isBlank c with
    | false => rfl
    | true =>
        have hword := h.isWord_name c (by simp [hname])
        rw [isWord_of_isBlank hblank] at hword
        cases hword
  have hend : dropBlanks (h.after ++ (holeEnd ++ rest)) = holeEnd ++ rest := by
    refine (takeWhile_append_of_head h.isBlank_after fun c hc => ?_).2
    cases hc
    decide
  have hhead : ∀ c ∈ (h.after ++ (holeEnd ++ rest)).head?, isWord c = false := by
    intro c hc
    cases hafter : h.after with
    | nil =>
        rw [hafter] at hc
        cases hc
        decide
    | cons a after =>
        rw [hafter] at hc
        cases hc
        exact isWord_of_isBlank (h.isBlank_after c (by simp [hafter]))
  obtain ⟨hname, hdrop⟩ := takeWhile_append_of_head h.isWord_name hhead
  rw [hform, readAnyHole, after?_append]
  simp only [Option.bind_eq_bind, Option.bind_some, hblanks, hname, hdrop, hend, after?_append]
  simp [h.ne_nil]

theorem exists_of_readAnyHole {s name rest : Text} (h : readAnyHole s = some (name, rest)) :
    ∃ hole : HoleText, hole.name = name ∧ s = hole.text ++ rest := by
  simp only [readAnyHole, Option.bind_eq_bind] at h
  obtain ⟨opened, hopen, h⟩ := Option.bind_eq_some_iff.mp h
  split at h
  · cases h
  · rename_i hname
    obtain ⟨after, hend, h⟩ := Option.bind_eq_some_iff.mp h
    cases h
    rw [after?_eq_some_iff] at hopen hend
    refine ⟨⟨blanks opened, (dropBlanks opened).takeWhile isWord,
      blanks ((dropBlanks opened).dropWhile isWord), by simpa using hname,
      fun _ => List.mem_takeWhile_imp, fun _ => List.mem_takeWhile_imp,
      fun _ => List.mem_takeWhile_imp⟩, rfl, ?_⟩
    simp only [HoleText.text, List.append_assoc]
    rw [← hend, blanks_append_dropBlanks, List.takeWhile_append_dropWhile,
      blanks_append_dropBlanks, hopen]

theorem HoleText.mem_text {h : HoleText} {c : Char} (hc : c ∈ h.text) :
    c = '{' ∨ c = '}' ∨ isBlank c ∨ isWord c := by
  simp only [text, holeStart, holeEnd, List.mem_append] at hc
  rcases hc with hc | hc | hc | hc | hc
  · exact .inl (by simpa using hc)
  · exact .inr (.inr (.inl (h.isBlank_before c hc)))
  · exact .inr (.inr (.inr (h.isWord_name c hc)))
  · exact .inr (.inr (.inl (h.isBlank_after c hc)))
  · exact .inr (.inl (by simpa using hc))

theorem consumes_readAnyHole : Recogniser.Consumes readAnyHole := by
  intro s name rest h
  obtain ⟨hole, -, rfl⟩ := exists_of_readAnyHole h
  exact ⟨hole.text, by simp [HoleText.text, holeStart], rfl⟩

theorem opensWith_readAnyHole : Recogniser.OpensWith readAnyHole '{' := by
  intro s hs
  cases h : readAnyHole s with
  | none => rfl
  | some r =>
      obtain ⟨hole, -, rfl⟩ := exists_of_readAnyHole h
      exact absurd rfl hs

/-- A hole at the front of a joined text stands in the first text or goes on into the second. -/
theorem HoleText.within_or_across {hole : HoleText} {s t rest : Text}
    (h : s ++ t = hole.text ++ rest) :
    (∃ more, s = hole.text ++ more) ∨ ∃ more, more ≠ [] ∧ more <+: t ∧ more <:+ hole.text := by
  rcases List.append_eq_append_iff.mp h with ⟨more, hmore, rfl⟩ | ⟨more, rfl, -⟩
  · cases more with
    | nil => exact .inl ⟨[], by rw [hmore, List.append_nil, List.append_nil]⟩
    | cons c more =>
        exact .inr ⟨c :: more, List.cons_ne_nil c more, List.prefix_append _ rest,
          hmore ▸ List.suffix_append s _⟩
  · exact .inl ⟨more, rfl⟩

theorem HoleText.not_mem_text {c : Char} (hblank : isBlank c = false) (hword : isWord c = false)
    (hopen : c ≠ '{') (hclose : c ≠ '}') (hole : HoleText) : c ∉ hole.text := by
  intro hc
  rcases hole.mem_text hc with h | h | h | h
  · exact hopen h
  · exact hclose h
  · simp [hblank] at h
  · simp [hword] at h

theorem stopsAt_readAnyHole {c : Char} (hblank : isBlank c = false) (hword : isWord c = false)
    (hopen : c ≠ '{') (hclose : c ≠ '}') : Recogniser.StopsAt readAnyHole c := by
  intro s t
  cases hread : readAnyHole s with
  | some r =>
      obtain ⟨hole, hname, rfl⟩ := exists_of_readAnyHole hread
      rw [List.append_assoc, hole.readAnyHole_append, hname]
      rfl
  | none =>
      cases hjoined : readAnyHole (s ++ c :: t) with
      | none => rfl
      | some r =>
          obtain ⟨hole, -, heq⟩ := exists_of_readAnyHole hjoined
          rcases hole.within_or_across heq with ⟨more, rfl⟩ | ⟨more, hne, hbegin, hsuffix⟩
          · rw [hole.readAnyHole_append] at hread
            cases hread
          · obtain ⟨a, more, rfl⟩ := List.exists_cons_of_ne_nil hne
            obtain ⟨rfl, -⟩ := List.cons_prefix_cons.mp hbegin
            exact absurd (hsuffix.subset List.mem_cons_self)
              (hole.not_mem_text hblank hword hopen hclose)

theorem HoleText.getLast?_text (hole : HoleText) : hole.text.getLast? = some '}' := by
  simp [text, holeEnd, List.getLast?_append]

/-- A text without holes gets none from the line feed and the tag behind it. -/
theorem spares_readAnyHole {s : Text} (h : readFirst? readAnyHole s = none) :
    Recogniser.Spares readAnyHole (s ++ ['\n', '<']) := by
  intro u hne hu t
  obtain ⟨left, hleft⟩ := hu
  rcases List.append_eq_append_iff.mp hleft with ⟨v, rfl, rfl⟩ | ⟨v, rfl, hv⟩
  · rw [List.append_assoc]
    cases hread : readAnyHole (v ++ (['\n', '<'] ++ t)) with
    | none => rfl
    | some r =>
        obtain ⟨hole, -, heq⟩ := exists_of_readAnyHole hread
        rcases hole.within_or_across heq with ⟨more, rfl⟩ | ⟨more, hmore, hbegin, hsuffix⟩
        · have hnone := eq_none_of_readFirst? h (List.suffix_append left _)
          rw [hole.readAnyHole_append] at hnone
          cases hnone
        · -- a hole that goes on would end in the line feed or hold the angle bracket
          rcases more with _ | ⟨a, _ | ⟨b, more⟩⟩
          · exact absurd rfl hmore
          · obtain ⟨rfl, -⟩ := List.cons_prefix_cons.mp hbegin
            obtain ⟨front, hfront⟩ := hsuffix
            have hlast := hole.getLast?_text
            rw [← hfront, List.getLast?_concat] at hlast
            cases hlast
          · obtain ⟨-, hbegin⟩ := List.cons_prefix_cons.mp hbegin
            obtain ⟨rfl, -⟩ := List.cons_prefix_cons.mp hbegin
            have hout : '<' ∉ hole.text :=
              hole.not_mem_text (by decide) (by decide +kernel) (by decide) (by decide)
            exact absurd (hsuffix.subset (by simp)) hout
  · have hspared : Recogniser.Spares readAnyHole ['\n', '<'] :=
      opensWith_readAnyHole.spares (by decide)
    exact hspared u hne ⟨v, hv.symm⟩ t

end StaticSite.Markup
