import StaticSite.Proofs.Text.Locality
import StaticSite.Text.Folding

/-!
# Reading in any letter case

A caseless character is the same letter as itself alone, so a mark that starts with one is read
only where it stands.
-/

namespace StaticSite.Text

/-- No character but `a` folds to `a`, and `a` folds to itself. -/
def isCaseless (a : Char) : Bool :=
  a.toNat != 0 && foldingRows.all fun (first, last, _, shift) =>
    (a.toNat < first || last < a.toNat) &&
      decide ((a.toNat : Int) < first + shift ∨ (last : Int) + shift < a.toNat)

theorem toNat_ofNat (n : Nat) : (Char.ofNat n).toNat = n ∨ (Char.ofNat n).toNat = 0 := by
  by_cases h : n.isValidChar
  · left
    rw [Char.ofNat, dif_pos h]
    rfl
  · right
    rw [Char.ofNat, dif_neg h]
    rfl

variable {a c : Char}

theorem fold_of_caseless (h : isCaseless a) : fold a = a := by
  rw [isCaseless, Bool.and_eq_true, List.all_eq_true] at h
  obtain ⟨-, hrows⟩ := h
  have hnone : foldingRows.find? (fun (first, last, stride, _) =>
      first ≤ a.toNat && a.toNat ≤ last && (a.toNat - first) % stride == 0) = none := by
    rw [List.find?_eq_none]
    rintro ⟨first, last, stride, shift⟩ hrow hfits
    have hout := hrows _ hrow
    simp only [Bool.and_eq_true, Bool.or_eq_true, decide_eq_true_eq] at hout hfits
    omega
  rw [fold, hnone]

theorem eq_of_fold_eq (h : isCaseless a) (hfold : fold c = a) : c = a := by
  rw [isCaseless, Bool.and_eq_true, List.all_eq_true] at h
  obtain ⟨hzero, hrows⟩ := h
  unfold fold at hfold
  split at hfold
  · rename_i first last stride shift hfind
    have hrow := hrows _ (List.mem_of_find?_eq_some hfind)
    have hfits := List.find?_some hfind
    simp only [Bool.and_eq_true, Bool.or_eq_true, decide_eq_true_eq, bne_iff_ne] at hrow hfits hzero
    have hnat := toNat_ofNat (c.toNat + shift).toNat
    rw [hfold] at hnat
    omega
  · exact hfold

theorem sameLetter_iff_of_caseless (h : isCaseless a) : sameLetter a c ↔ c = a := by
  rw [sameLetter, beq_iff_eq, fold_of_caseless h]
  constructor
  · intro heq
    exact eq_of_fold_eq h heq.symm
  · rintro rfl
    exact (fold_of_caseless h).symm

/-- Whether two texts are the same letter by letter. -/
def SameLetters (s t : Text) : Prop := s.map fold = t.map fold

instance (s t : Text) : Decidable (SameLetters s t) := inferInstanceAs (Decidable (_ = _))

theorem sameLetters_cons_iff {s t : Text} :
    SameLetters (a :: s) t ↔ ∃ c u, t = c :: u ∧ sameLetter a c ∧ SameLetters s u := by
  cases t with
  | nil => simp [SameLetters]
  | cons b t =>
      simp only [SameLetters, sameLetter, List.map_cons, List.cons.injEq, beq_iff_eq]
      constructor
      · rintro ⟨hletter, hsame⟩
        exact ⟨b, t, ⟨rfl, rfl⟩, hletter, hsame⟩
      · rintro ⟨c, u, ⟨rfl, rfl⟩, hletter, hsame⟩
        exact ⟨hletter, hsame⟩

theorem SameLetters.append {s t u v : Text} (h : SameLetters s t) (h' : SameLetters u v) :
    SameLetters (s ++ u) (t ++ v) := by
  unfold SameLetters at h h' ⊢
  rw [List.map_append, List.map_append, h, h']

theorem afterFolded?_eq_some_iff {mark s rest : Text} :
    afterFolded? mark s = some rest ↔
      ∃ written, SameLetters mark written ∧ s = written ++ rest := by
  induction mark generalizing s with
  | nil => simp [afterFolded?, SameLetters, eq_comm]
  | cons a mark ih =>
      constructor
      · intro h
        cases s with
        | nil => cases h
        | cons c s =>
            rw [afterFolded?] at h
            split at h
            · rename_i hletter
              obtain ⟨written, hsame, rfl⟩ := ih.mp h
              exact ⟨c :: written, sameLetters_cons_iff.mpr ⟨c, written, rfl, hletter, hsame⟩, rfl⟩
            · cases h
      · rintro ⟨written, hsame, rfl⟩
        obtain ⟨c, more, rfl, hletter, hsame⟩ := sameLetters_cons_iff.mp hsame
        rw [List.cons_append, afterFolded?, if_pos hletter]
        exact ih.mpr ⟨more, hsame, rfl⟩

theorem afterFolded?_cons_of_ne (h : isCaseless a) (hne : c ≠ a) (mark s : Text) :
    afterFolded? (a :: mark) (c :: s) = none := by
  have hletter : ¬sameLetter a c := fun hsame => hne ((sameLetter_iff_of_caseless h).mp hsame)
  rw [afterFolded?, if_neg hletter]

/-- A mark without the caseless character `c` is read before `c` or not at all. -/
theorem afterFolded?_append_cons {mark : Text} (h : isCaseless c) (hmark : c ∉ mark)
    (s t : Text) : afterFolded? mark (s ++ c :: t) = (afterFolded? mark s).map (· ++ c :: t) := by
  induction mark generalizing s with
  | nil => rfl
  | cons a mark ih =>
      rw [List.mem_cons, not_or] at hmark
      cases s with
      | nil =>
          have hletter : ¬sameLetter a c := by
            rw [sameLetter, beq_iff_eq, fold_of_caseless h]
            exact fun hfold => hmark.1 (eq_of_fold_eq h hfold).symm
          have hnone : afterFolded? (a :: mark) (c :: t) = none := by
            rw [afterFolded?, if_neg hletter]
          exact hnone
      | cons b s =>
          rw [List.cons_append, afterFolded?, afterFolded?]
          split
          · exact ih hmark.2 s
          · rfl

theorem notMem_of_sameLetters {mark s : Text} (h : isCaseless c) (hmark : c ∉ mark)
    (hsame : SameLetters mark s) : c ∉ s := by
  intro hc
  have hfold : fold c ∈ mark.map fold := hsame ▸ List.mem_map_of_mem hc
  obtain ⟨a, ha, heq⟩ := List.mem_map.mp hfold
  rw [fold_of_caseless h] at heq
  exact hmark (eq_of_fold_eq h heq ▸ ha)

end StaticSite.Text
