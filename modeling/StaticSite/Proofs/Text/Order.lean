import StaticSite.Text.Basic

/-!
# The order of texts

Texts are ordered by their first differing character, a beginning before what it begins.
-/

namespace StaticSite

theorem eq_of_pairwise_of_mem_iff {α : Type} {r : α → α → Prop} {as bs : List α}
    (hr : ∀ a b, r a b → r b a → a = b) (has : as.Pairwise r) (hbs : bs.Pairwise r)
    (hnodup : as.Nodup) (hnodup' : bs.Nodup) (h : ∀ a, a ∈ as ↔ a ∈ bs) : as = bs :=
  List.Perm.eq_of_pairwise (fun a b _ _ => hr a b) has hbs
    ((List.perm_ext_iff_of_nodup hnodup hnodup').mpr h)

namespace Text

variable {s t u : Text}

theorem le_cons_iff {a c : Char} : le (a :: s) (c :: t) ↔ a < c ∨ a = c ∧ le s t := by
  simp [le]

theorem le_total (s t : Text) : le s t ∨ le t s := by
  induction s generalizing t with
  | nil => exact .inl rfl
  | cons a s ih =>
      cases t with
      | nil => exact .inr rfl
      | cons c t =>
          rw [le_cons_iff, le_cons_iff]
          by_cases hac : a < c
          · exact .inl (.inl hac)
          · by_cases hca : c < a
            · exact .inr (.inl hca)
            · obtain rfl := Char.le_antisymm (Char.not_lt.mp hca) (Char.not_lt.mp hac)
              rcases ih t with h | h
              · exact .inl (.inr ⟨rfl, h⟩)
              · exact .inr (.inr ⟨rfl, h⟩)

theorem le_antisymm (h : le s t) (h' : le t s) : s = t := by
  induction s generalizing t with
  | nil =>
      cases t with
      | nil => rfl
      | cons c t => cases h'
  | cons a s ih =>
      cases t with
      | nil => cases h
      | cons c t =>
          rw [le_cons_iff] at h h'
          rcases h with h | ⟨rfl, h⟩
          · rcases h' with h' | ⟨rfl, -⟩
            · exact absurd (Char.lt_trans h h') (Char.lt_irrefl a)
            · exact absurd h (Char.lt_irrefl _)
          · rcases h' with h' | ⟨-, h'⟩
            · exact absurd h' (Char.lt_irrefl _)
            · rw [ih h h']

theorem le_trans (h : le s t) (h' : le t u) : le s u := by
  induction s generalizing t u with
  | nil => rfl
  | cons a s ih =>
      cases t with
      | nil => cases h
      | cons c t =>
          cases u with
          | nil => cases h'
          | cons e u =>
              rw [le_cons_iff] at h h' ⊢
              rcases h with h | ⟨rfl, h⟩
              · rcases h' with h' | ⟨rfl, -⟩
                · exact .inl (Char.lt_trans h h')
                · exact .inl h
              · rcases h' with h' | ⟨rfl, h'⟩
                · exact .inl h'
                · exact .inr ⟨rfl, ih h h'⟩

/-! ## Sorted sets of texts -/

variable {ts us : List Text}

theorem mem_insertOnce : s ∈ insertOnce t ts ↔ s = t ∨ s ∈ ts := by
  induction ts with
  | nil => simp [insertOnce]
  | cons u ts ih =>
      rw [insertOnce]
      split
      · rename_i heq
        simp [heq]
      · split
        · simp
        · simp only [List.mem_cons, ih]
          exact or_left_comm

theorem mem_sortedSet : s ∈ sortedSet ts ↔ s ∈ ts := by
  induction ts with
  | nil => rfl
  | cons t ts ih =>
      rw [List.mem_cons, ← ih]
      exact mem_insertOnce

theorem pairwise_insertOnce (h : ts.Pairwise fun s t => le s t ∧ s ≠ t) :
    (insertOnce s ts).Pairwise fun s t => le s t ∧ s ≠ t := by
  induction ts with
  | nil => exact List.pairwise_singleton _ s
  | cons t ts ih =>
      obtain ⟨hfirst, hrest⟩ := List.pairwise_cons.mp h
      rw [insertOnce]
      split
      · exact h
      · rename_i hne
        split
        · rename_i hle
          refine List.pairwise_cons.mpr ⟨fun u hu => ?_, h⟩
          rcases List.mem_cons.mp hu with rfl | hu
          · exact ⟨hle, hne⟩
          · obtain ⟨htu, hneu⟩ := hfirst u hu
            refine ⟨le_trans hle htu, ?_⟩
            rintro rfl
            exact hne (le_antisymm hle htu)
        · rename_i hle
          refine List.pairwise_cons.mpr ⟨fun u hu => ?_, ih hrest⟩
          rcases mem_insertOnce.mp hu with rfl | hu
          · exact ⟨(le_total _ t).resolve_left hle, Ne.symm hne⟩
          · exact hfirst u hu

theorem pairwise_sortedSet (ts : List Text) :
    (sortedSet ts).Pairwise fun s t => le s t ∧ s ≠ t := by
  induction ts with
  | nil => exact .nil
  | cons t ts ih => exact pairwise_insertOnce ih

theorem sortedSet_congr (h : ∀ s, s ∈ ts ↔ s ∈ us) : sortedSet ts = sortedSet us := by
  have hnodup (ts : List Text) : (sortedSet ts).Nodup := (pairwise_sortedSet ts).imp And.right
  refine eq_of_pairwise_of_mem_iff (fun s t hst hts => le_antisymm hst.1 hts.1)
    (pairwise_sortedSet ts) (pairwise_sortedSet us) (hnodup ts) (hnodup us) fun s => ?_
  rw [mem_sortedSet, mem_sortedSet, h]

end Text

end StaticSite
