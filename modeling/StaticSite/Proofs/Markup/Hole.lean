import StaticSite.Markup.Placeholder
import StaticSite.Proofs.Text.Locality

/-!
# Holes in joined texts

A hole for a name of word characters and hyphens holds no quote and no angle bracket. So filling
works on the stretches between such characters one by one (`fill_append_cons`).
-/

namespace StaticSite.Markup

open Text

/-- A name under which an attribute can be written: word characters and hyphens. -/
def IsHoleName (name : Text) : Prop := ∀ c ∈ name, isHyphenWord c

instance (name : Text) : Decidable (IsHoleName name) := by unfold IsHoleName; infer_instance

/-- A character that stands in no hole for `name`. -/
structure Bounds (name : Text) (c : Char) : Prop where
  notMem : c ∉ name
  notBlank : isBlank c = false
  ne_open : c ≠ '{'
  ne_close : c ≠ '}'

/-- The characters between the parts of a tag. -/
def tagMarks : List Char := ['<', '>', '"']

theorem bounds_of_mem_tagMarks {name : Text} (hname : IsHoleName name) {c : Char}
    (hc : c ∈ tagMarks) : Bounds name c := by
  have hword : isHyphenWord c = false ∧ isBlank c = false ∧ c ≠ '{' ∧ c ≠ '}' := by
    revert c
    decide
  refine ⟨fun hmem => ?_, hword.2.1, hword.2.2.1, hword.2.2.2⟩
  simpa [hword.1] using hname c hmem

/-- The end of a hole for `name` of which the first `k` characters after the braces are blank. -/
def holeRest? (name opened : Text) (k : Nat) : Option (Unit × Text) := do
  let named ← after? name (opened.drop k)
  let rest ← after? holeEnd (dropBlanks named)
  return ((), rest)

theorem holeRest?_eq_some {name opened rest : Text} {k : Nat}
    (h : holeRest? name opened k = some ((), rest)) : ∃ source, opened = source ++ rest := by
  simp only [holeRest?, Option.bind_eq_bind, Option.bind_eq_some_iff] at h
  obtain ⟨named, hname, r, hend, hr⟩ := h
  cases hr
  rw [after?_eq_some_iff] at hname hend
  refine ⟨opened.take k ++ name ++ blanks named ++ holeEnd, ?_⟩
  calc
    opened = opened.take k ++ (name ++ named) := by rw [← hname, List.take_append_drop]
    _ = opened.take k ++ (name ++ (blanks named ++ (holeEnd ++ rest))) := by
      rw [← hend, blanks_append_dropBlanks]
    _ = _ := by simp

theorem consumes_readHole (name : Text) : (readHole name).Consumes := by
  intro s a rest h
  simp only [readHole, Option.bind_eq_bind, Option.bind_eq_some_iff] at h
  obtain ⟨opened, hopen, h⟩ := h
  obtain ⟨k, -, hk⟩ := List.exists_of_findSome?_eq_some h
  obtain ⟨source, rfl⟩ := holeRest?_eq_some hk
  rw [after?_eq_some_iff] at hopen
  exact ⟨holeStart ++ source, by simp [holeStart], by rw [hopen, List.append_assoc]⟩

theorem readHole_cons_of_ne (name : Text) {c : Char} (hc : c ≠ '{') (s : Text) :
    readHole name (c :: s) = none := by
  simp [readHole, holeStart, after?, Ne.symm hc]

theorem cons_of_readHole {name s : Text} {r : Unit × Text} (h : readHole name s = some r) :
    ∃ t, s = '{' :: t := by
  cases s with
  | nil => simp [(consumes_readHole name).nil_eq_none] at h
  | cons c s =>
      by_cases hc : c = '{'
      · exact ⟨s, by rw [hc]⟩
      · simp [readHole_cons_of_ne name hc] at h

theorem readFirst?_readHole_of_notMem (name : Text) {s : Text} (hs : '{' ∉ s) :
    readFirst? (readHole name) s = none := by
  induction s with
  | nil => exact (consumes_readHole name).nil_eq_none
  | cons c s ih =>
      rw [List.mem_cons, not_or] at hs
      rw [readFirst?, readHole_cons_of_ne name (Ne.symm hs.1), Option.none_or, ih hs.2]

theorem holeRest?_append_cons {name : Text} {c : Char} (h : Bounds name c) {opened : Text}
    (t : Text) {k : Nat} (hk : k ≤ opened.length) :
    holeRest? name (opened ++ c :: t) k =
      (holeRest? name opened k).map fun r => (r.1, r.2 ++ c :: t) := by
  have hend : c ∉ holeEnd := by simp [holeEnd, h.ne_close]
  simp only [holeRest?, List.drop_append_of_le_length hk, after?_append_cons h.notMem]
  cases after? name (opened.drop k) with
  | none => rfl
  | some named =>
      simp only [Option.map_some, Option.bind_eq_bind, Option.bind_some, dropBlanks,
        dropWhile_append_cons h.notBlank, after?_append_cons hend]
      cases after? holeEnd (named.dropWhile isBlank) <;> rfl

theorem findSome?_eq_map {β γ δ : Type} {l : List β} {f : β → Option γ} {g : β → Option δ}
    {m : γ → δ} (h : ∀ b ∈ l, g b = (f b).map m) : l.findSome? g = (l.findSome? f).map m := by
  induction l with
  | nil => rfl
  | cons b l ih =>
      rw [List.findSome?_cons, List.findSome?_cons, h b (by simp)]
      cases f b with
      | none => simpa using ih fun a ha => h a (by simp [ha])
      | some d => rfl

theorem stopsAt_readHole {name : Text} {c : Char} (h : Bounds name c) :
    (readHole name).StopsAt c := by
  intro s t
  have hstart : c ∉ holeStart := by simp [holeStart, h.ne_open]
  simp only [readHole, after?_append_cons hstart]
  cases after? holeStart s with
  | none => rfl
  | some opened =>
      simp only [Option.map_some, Option.bind_eq_bind, Option.bind_some, blanks,
        takeWhile_append_cons h.notBlank]
      apply findSome?_eq_map
      intro k hk
      have hlen := (List.takeWhile_sublist (l := opened) isBlank).length_le
      simp only [List.mem_reverse, List.mem_range] at hk
      exact holeRest?_append_cons h t (by omega)

/-! ## Filling -/

section Fill

variable (name value : Text)

@[simp] theorem fill_nil : fill name value [] = [] := rfl

theorem fill_cons_of_ne {c : Char} (hc : c ≠ '{') (s : Text) :
    fill name value (c :: s) = c :: fill name value s :=
  replaceAll_cons_of_none _ (readHole_cons_of_ne name hc s)

theorem fill_of_readHole {source rest : Text} (hs : source ≠ [])
    (h : readHole name (source ++ rest) = some ((), rest)) :
    fill name value (source ++ rest) = value ++ fill name value rest :=
  replaceAll_of_some _ hs h

theorem fill_eq_self_of_notMem {s : Text} (hs : '{' ∉ s) : fill name value s = s :=
  replaceAll_eq_self _ (readFirst?_readHole_of_notMem name hs)

theorem fill_append_cons {c : Char} (h : Bounds name c) (s t : Text) :
    fill name value (s ++ c :: t) = fill name value s ++ c :: fill name value t :=
  replaceAll_append_cons _ (consumes_readHole name) (stopsAt_readHole h) s t

theorem mem_fill {c : Char} {s : Text} (h : c ∈ fill name value s) : c ∈ s ∨ c ∈ value := by
  induction s using split_induction (consumes_readHole name) with
  | nil => simp at h
  | gap a s hs ih =>
      rw [fill, replaceAll_cons_of_none _ hs, List.mem_cons] at h
      rcases h with rfl | h
      · simp
      · rcases ih h with h | h
        · exact .inl (List.mem_cons_of_mem a h)
        · exact .inr h
  | hit a source rest hne hs ih =>
      rw [fill_of_readHole name value hne hs, List.mem_append] at h
      rcases h with h | h
      · exact .inr h
      · rcases ih h with h | h
        · exact .inl (List.mem_append_right source h)
        · exact .inr h

end Fill

end StaticSite.Markup
