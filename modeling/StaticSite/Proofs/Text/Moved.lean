import StaticSite.Proofs.Text.Locality

/-!
# Where a place moves

A pass that replaces matches moves the places between them. A block of text in which no match
begins comes through a pass as it is, as long as no match that is replaced goes on into it.
-/

namespace StaticSite.Text

variable {α : Type} {read : Recogniser α} {write : α → Text → Text}

/-- How many characters stand before the place `n` after the matches are replaced. The place is
lost when a match that is replaced goes across it. -/
def moved? (write : α → Text → Text) : List (Piece α) → Nat → Option Nat
  | _, 0 => some 0
  | [], _ + 1 => none
  | .gap _ :: ps, n + 1 => (moved? write ps n).map (· + 1)
  | .hit a source :: ps, n + 1 =>
      if source.length ≤ n + 1 then
        (moved? write ps (n + 1 - source.length)).map ((write a source).length + ·)
      else if write a source = source then some (n + 1)
      else none

@[simp] theorem moved?_zero (ps : List (Piece α)) : moved? write ps 0 = some 0 := by
  cases ps with
  | nil => rfl
  | cons p ps => cases p <;> rfl

/-- A text in which no match begins, whatever follows it. -/
def Recogniser.Spares (read : Recogniser α) (block : Text) : Prop :=
  ∀ u, u ≠ [] → u <:+ block → ∀ t, read (u ++ t) = none

theorem Recogniser.Spares.of_suffix {block s : Text} (h : read.Spares block) (hs : s <:+ block) :
    read.Spares s :=
  fun u hne hu => h u hne (hu.trans hs)

theorem Recogniser.Spares.append {s t : Text} (hs : read.Spares s) (ht : read.Spares t) :
    read.Spares (s ++ t) := by
  intro u hne hu after
  obtain ⟨left, hleft⟩ := hu
  rcases List.append_eq_append_iff.mp hleft with ⟨v, rfl, rfl⟩ | ⟨v, rfl, rfl⟩
  · cases v with
    | nil => exact ht t hne (List.suffix_refl t) after
    | cons c v =>
        rw [List.append_assoc]
        exact hs (c :: v) (List.cons_ne_nil c v) (List.suffix_append left _) (t ++ after)
  · exact ht u hne (List.suffix_append v u) after

theorem Recogniser.Spares.cons {c : Char} {s : Text} (h : ∀ t, read (c :: (s ++ t)) = none)
    (hs : read.Spares s) : read.Spares (c :: s) := by
  intro u hne hu t
  rcases List.suffix_cons_iff.mp hu with rfl | hu
  · exact h t
  · exact hs u hne hu t

theorem Recogniser.OpensWith.spares {c : Char} (opens : read.OpensWith c) {s : Text}
    (hs : c ∉ s) : read.Spares s :=
  fun u hne hu t => opens.eq_none hs t u hne hu

/-- The pass writes `n` characters, then the block, and then something else. -/
def Carried (read : Recogniser α) (write : α → Text → Text) (block : Text) (n : Nat) (s : Text) :
    Prop :=
  ∃ left right, left.length = n ∧ replaceAll read write s = left ++ (block ++ right)

section Carried

variable {block after before s source rest : Text} {n : Nat} {a : α}

theorem carried_start (spares : read.Spares block) :
    Carried read write block 0 (block ++ after) := by
  refine ⟨[], replaceAll read write after, rfl, ?_⟩
  exact replaceAll_append_of_none write fun u hne hu => spares u hne hu after

theorem Carried.cons {c : Char} (h : Carried read write block n s) (hread : read (c :: s) = none) :
    Carried read write block (n + 1) (c :: s) := by
  obtain ⟨left, right, rfl, hreplaced⟩ := h
  refine ⟨c :: left, right, rfl, ?_⟩
  rw [replaceAll_cons_of_none write hread, hreplaced, List.cons_append]

theorem Carried.hit (h : Carried read write block n rest) (hne : source ≠ [])
    (hread : read (source ++ rest) = some (a, rest)) :
    Carried read write block ((write a source).length + n) (source ++ rest) := by
  obtain ⟨left, right, rfl, hreplaced⟩ := h
  refine ⟨write a source ++ left, right, List.length_append, ?_⟩
  rw [replaceAll_of_some write hne hread, hreplaced, List.append_assoc]

/-- A match that is written as it stands may go on into the block, or beyond it. -/
theorem carried_across (spares : read.Spares block) {inside : Text}
    (hsource : before ++ inside = source) (hblock : block ++ after = inside ++ rest)
    (hne : source ≠ []) (hread : read (source ++ rest) = some (a, rest))
    (hsame : write a source = source) :
    Carried read write block before.length (source ++ rest) := by
  rw [Carried, replaceAll_of_some write hne hread, hsame, ← hsource]
  rcases List.append_eq_append_iff.mp hblock with ⟨more, rfl, rfl⟩ | ⟨more, rfl, rfl⟩
  · exact ⟨before, more ++ replaceAll read write rest, rfl, by simp only [List.append_assoc]⟩
  · have hmore := spares.of_suffix (List.suffix_append inside more)
    refine ⟨before, replaceAll read write after, rfl, ?_⟩
    rw [replaceAll_append_of_none write fun u hne hu => hmore u hne hu after]
    simp only [List.append_assoc]

/-- A block that no match begins in comes through a pass that does not lose its place. -/
theorem carried_of_moved? (consumes : read.Consumes) (spares : read.Spares block)
    (hs : before ++ (block ++ after) = s)
    (h : moved? write (split read s) before.length = some n) : Carried read write block n s := by
  have atStart {s : Text} {n : Nat} (hs : [] ++ (block ++ after) = s)
      (h : moved? write (split read s) 0 = some n) : Carried read write block n s := by
    rw [moved?_zero] at h
    cases h
    exact hs ▸ carried_start spares
  induction s using split_induction consumes generalizing before n with
  | nil =>
      obtain ⟨rfl, -⟩ := List.append_eq_nil_iff.mp hs
      exact atStart hs h
  | gap c t hread ih =>
      cases before with
      | nil => exact atStart hs h
      | cons b before =>
          rw [List.cons_append, List.cons.injEq] at hs
          obtain ⟨rfl, rfl⟩ := hs
          rw [split_cons_of_none hread, List.length_cons, moved?] at h
          obtain ⟨k, hk, rfl⟩ := Option.map_eq_some_iff.mp h
          exact (ih rfl hk).cons hread
  | hit a source rest hne hread ih =>
      cases before with
      | nil => exact atStart hs h
      | cons b before =>
          rw [split_of_some hne hread, List.length_cons, moved?] at h
          have hsource : source <+: source ++ rest := List.prefix_append source rest
          have hbefore : b :: before <+: source ++ rest := hs ▸ List.prefix_append _ _
          split at h
          · rename_i hshort
            obtain ⟨k, hk, rfl⟩ := Option.map_eq_some_iff.mp h
            obtain ⟨m, hm⟩ := List.prefix_of_prefix_length_le hsource hbefore hshort
            rw [← hm, List.append_assoc] at hs
            have hlen : before.length + 1 - source.length = m.length := by
              have hsum := congrArg List.length hm
              rw [List.length_cons, List.length_append] at hsum
              omega
            rw [hlen] at hk
            exact (ih (List.append_cancel_left hs) hk).hit hne hread
          · rename_i hlong
            split at h
            · rename_i hsame
              cases h
              obtain ⟨m, hm⟩ := List.prefix_of_prefix_length_le hbefore hsource
                (Nat.le_of_not_le hlong)
              rw [← hm, List.append_assoc] at hs
              exact carried_across spares hm (List.append_cancel_left hs) hne hread hsame
            · cases h

end Carried

end StaticSite.Text
