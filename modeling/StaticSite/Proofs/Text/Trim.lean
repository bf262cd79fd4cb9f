import StaticSite.Proofs.Text.Locality

/-!
# Trimming joined texts

Trimming takes the blanks at the start, then those at the end. The end of a joined text is the end
of its second part, unless that part is blank.
-/

namespace StaticSite.Text

def trimEnd (s : Text) : Text := (dropBlanks s.reverse).reverse

theorem trim_eq (s : Text) : trim s = trimEnd (dropBlanks s) := rfl

@[simp] theorem trimEnd_nil : trimEnd [] = [] := rfl

theorem trimEnd_append_cons {c : Char} (h : isBlank c = false) (s t : Text) :
    trimEnd (s ++ c :: t) = s ++ c :: trimEnd t := by
  have hrev : (s ++ c :: t).reverse = t.reverse ++ c :: s.reverse := by simp
  rw [trimEnd, hrev, dropBlanks, dropWhile_append_cons h]
  simp [trimEnd, dropBlanks]

theorem trimEnd_append (s t : Text) :
    trimEnd (s ++ t) = if trimEnd t = [] then trimEnd s else s ++ trimEnd t := by
  simp only [trimEnd, dropBlanks, List.reverse_append, List.dropWhile_append,
    List.reverse_eq_nil_iff, List.isEmpty_iff]
  split <;> simp

theorem trimEnd_cons (c : Char) (s : Text) :
    trimEnd (c :: s) = [] ∨ trimEnd (c :: s) = c :: trimEnd s := by
  cases hc : isBlank c with
  | false => exact .inr (trimEnd_append_cons hc [] s)
  | true =>
      have happ := trimEnd_append [c] s
      rw [List.singleton_append] at happ
      rw [happ]
      split
      · left
        simp [trimEnd, dropBlanks, hc]
      · right
        rfl

theorem dropBlanks_append_of_blank {gap : Text} (h : ∀ c ∈ gap, isBlank c) (s : Text) :
    dropBlanks (gap ++ s) = dropBlanks s :=
  List.dropWhile_append_of_pos h

theorem dropBlanks_eq_nil_iff {s : Text} : dropBlanks s = [] ↔ ∀ c ∈ s, isBlank c := by
  rw [dropBlanks]
  induction s with
  | nil => simp
  | cons c s ih => by_cases hc : isBlank c <;> simp [hc, ih]

theorem trimEnd_eq_nil_iff {s : Text} : trimEnd s = [] ↔ ∀ c ∈ s, isBlank c := by
  rw [trimEnd, List.reverse_eq_nil_iff, dropBlanks_eq_nil_iff]
  simp only [List.mem_reverse]

theorem trim_blanks_append {gap : Text} (h : ∀ c ∈ gap, isBlank c) (s : Text) :
    trim (gap ++ s) = trim s := by
  rw [trim_eq, dropBlanks_append_of_blank h, ← trim_eq]

theorem trim_append_blanks {gap : Text} (h : ∀ c ∈ gap, isBlank c) (s : Text) :
    trim (s ++ gap) = trim s := by
  have hdrop : dropBlanks (s ++ gap) = if dropBlanks s = [] then [] else dropBlanks s ++ gap := by
    rw [dropBlanks, List.dropWhile_append, ← dropBlanks, ← dropBlanks, dropBlanks_eq_nil_iff.mpr h]
    simp only [List.isEmpty_iff]
  rw [trim_eq, trim_eq, hdrop]
  split
  · rename_i hblank
    rw [hblank]
  · rw [trimEnd_append, if_pos (trimEnd_eq_nil_iff.mpr h)]

/-- Trimming takes blanks from both ends and nothing else. -/
theorem exists_eq_trim (s : Text) : ∃ before after, (∀ c ∈ before, isBlank c) ∧
    (∀ c ∈ after, isBlank c) ∧ s = before ++ (trim s ++ after) := by
  have blank {u : Text} : ∀ c ∈ blanks u, isBlank c :=
    fun c hc => List.all_eq_true.mp List.all_takeWhile c hc
  refine ⟨blanks s, (blanks (dropBlanks s).reverse).reverse, blank,
    fun c hc => blank c (List.mem_reverse.mp hc), ?_⟩
  have hend := congrArg List.reverse (blanks_append_dropBlanks (dropBlanks s).reverse)
  rw [List.reverse_append, List.reverse_reverse] at hend
  rw [trim, hend, blanks_append_dropBlanks]

end StaticSite.Text
