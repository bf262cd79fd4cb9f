import StaticSite.Proofs.Markup.SelfClosing
import StaticSite.Proofs.Markup.Tags

/-!
# Tags in layers

A kernel is a self-closing tag, and a letter `C` in its place completes the halves of a kernel
around it. So a kernel within the halves of `k` others takes `k + 1` passes to vanish: each pass
finds one kernel, and what it leaves is found by the next pass only. The layers are a block, so
they stay apart from the text around them.
-/

namespace StaticSite.Markup

open Text

/-- A name that no text of at most `n` characters can hold. -/
def kernelName (n : Nat) : Text := List.replicate (n + 1) 'z'

def kernelAttributes (n : Nat) : List (Text × Text) := [(sourceName, []), (kernelName n, [])]

def kernel (n : Nat) : Text := renderSelfClosing (kernelAttributes n)

/-- What follows the first two characters of a kernel. -/
def kernelTail (n : Nat) : Text := "omponent" ++ renderAttributes (kernelAttributes n) ++ " />"

theorem kernel_eq (n : Nat) : kernel n = '<' :: 'C' :: kernelTail n := by
  unfold kernel renderSelfClosing kernelTail
  rfl

theorem isAttribute_kernel (n : Nat) : ∀ a ∈ kernelAttributes n, IsAttribute .hyphenated a := by
  have hz : NameStyle.hyphenated.inName 'z' := by decide
  intro a ha
  rcases List.mem_cons.mp ha with rfl | ha
  · exact ⟨by decide, by decide, by simp [IsPlain]⟩
  · rw [List.mem_singleton.mp ha]
    exact ⟨by simp [kernelName], fun c hc => by rw [List.eq_of_mem_replicate hc]; exact hz,
      by simp [IsPlain]⟩

theorem notMem_kernelTail (n : Nat) : '<' ∉ kernelTail n := by
  have hattributes := notMem_renderAttributes (c := '<') (by simp) (isAttribute_kernel n)
  unfold kernelTail
  simp [hattributes]

theorem notMem_brace_kernelTail (n : Nat) : '{' ∉ kernelTail n := by
  have hname : '{' ∉ kernelName n := fun hc => absurd (List.eq_of_mem_replicate hc) (by decide)
  have hattributes : '{' ∉ renderAttributes (kernelAttributes n) := by
    simp [renderAttributes, kernelAttributes, sourceName, hname]
  unfold kernelTail
  simp [hattributes]

theorem getLast?_kernelTail (n : Nat) : (kernelTail n).getLast? = some '>' := by
  have hlast : " />".toList.getLast? = some '>' := by decide
  unfold kernelTail
  rw [List.getLast?_append, hlast, Option.some_or]

/-- What stands behind a kernel within `k` layers. -/
def halves (n k : Nat) : Text := (List.replicate k (kernelTail n)).flatten

/-- A kernel within the halves of `k` others. -/
def layered (n k : Nat) : Text :=
  '.' :: '>' :: (List.replicate k '<' ++ (kernel n ++ halves n k))

theorem notMem_halves (n k : Nat) : '<' ∉ halves n k := by
  intro hmem
  obtain ⟨t, ht, hc⟩ := List.mem_flatten.mp hmem
  rw [List.eq_of_mem_replicate ht] at hc
  exact notMem_kernelTail n hc

theorem notMem_brace_layered (n k : Nat) : '{' ∉ layered n k := by
  have hhalves : '{' ∉ halves n k := by
    intro hmem
    obtain ⟨t, ht, hc⟩ := List.mem_flatten.mp hmem
    rw [List.eq_of_mem_replicate ht] at hc
    exact notMem_brace_kernelTail n hc
  simp [layered, kernel_eq, hhalves, notMem_brace_kernelTail]

theorem getLast?_kernel (n : Nat) : (kernel n).getLast? = some '>' := by
  rw [kernel, renderSelfClosing_eq_append, List.getLast?_append]
  rfl

theorem closes_halves (n k : Nat) : ∀ c ∈ (halves n k).getLast?, c = '>' := by
  induction k with
  | zero => simp [halves]
  | succ k ih =>
      intro c hc
      rw [halves, List.replicate_succ', List.flatten_append, List.getLast?_append] at hc
      simpa [getLast?_kernelTail, eq_comm] using hc

theorem isBlock_layered (n k : Nat) : IsBlock (layered n k) := by
  refine ⟨⟨_, rfl⟩, ?_⟩
  have hbefore : (layered n k) =
      ('.' :: '>' :: List.replicate k '<') ++ kernel n ++ halves n k := by
    simp [layered]
  rw [hbefore, List.getLast?_append, List.getLast?_append, getLast?_kernel]
  cases hlast : (halves n k).getLast? with
  | none => rfl
  | some c =>
      rw [closes_halves n k c hlast]
      rfl

section Search

variable {α : Type} {read : Recogniser α} {a : α} {n : Nat}

theorem split_eq_gaps (hne : ∀ {c}, c ≠ '<' → ∀ s, read (c :: s) = none) {s : Text}
    (hs : '<' ∉ s) : split read s = s.map .gap := by
  induction s with
  | nil => rfl
  | cons c s ih =>
      rw [List.mem_cons, not_or] at hs
      rw [split_cons_of_none (hne (Ne.symm hs.1) s), ih hs.2, List.map_cons]

theorem split_opened (hne : ∀ {c}, c ≠ '<' → ∀ s, read (c :: s) = none)
    (hdouble : ∀ s, read ('<' :: '<' :: s) = none)
    (hkernel : ∀ t, read (kernel n ++ t) = some (a, t)) {t : Text} (ht : '<' ∉ t) (k : Nat) :
    split read (List.replicate k '<' ++ (kernel n ++ t)) =
      (List.replicate k '<').map .gap ++ .hit a (kernel n) :: t.map .gap := by
  induction k with
  | zero =>
      have hnil : kernel n ≠ [] := by simp [kernel_eq]
      rw [List.replicate_zero, List.nil_append, split_of_some hnil (hkernel t),
        split_eq_gaps hne ht]
      rfl
  | succ k ih =>
      have hnext : ∃ s, List.replicate k '<' ++ (kernel n ++ t) = '<' :: s := by
        cases k with
        | zero => exact ⟨_, rfl⟩
        | succ k => exact ⟨_, rfl⟩
      have hread : read ('<' :: (List.replicate k '<' ++ (kernel n ++ t))) = none := by
        obtain ⟨s, hs⟩ := hnext
        rw [hs]
        exact hdouble s
      rw [List.replicate_succ, List.cons_append, split_cons_of_none hread, ih]
      rfl

/-- The only tag in the layers is the kernel. -/
theorem split_layered (hne : ∀ {c}, c ≠ '<' → ∀ s, read (c :: s) = none)
    (hdouble : ∀ s, read ('<' :: '<' :: s) = none)
    (hkernel : ∀ t, read (kernel n ++ t) = some (a, t)) (k : Nat) :
    split read (layered n k) =
      ('.' :: '>' :: List.replicate k '<').map .gap ++
        .hit a (kernel n) :: (halves n k).map .gap := by
  rw [layered, split_cons_of_none (hne (by decide) _), split_cons_of_none (hne (by decide) _),
    split_opened hne hdouble hkernel (notMem_halves n k)]
  rfl

end Search

theorem split_readSelfClosing_layered (n k : Nat) :
    split readSelfClosing (layered n k) =
      ('.' :: '>' :: List.replicate k '<').map .gap ++
        .hit () (kernel n) :: (halves n k).map .gap :=
  split_layered (fun hc => readSelfClosing_cons_of_ne hc) (fun _ => rfl)
    (readSelfClosing_renderSelfClosing (isAttribute_kernel n)) k

theorem childReferences_layered (n k : Nat) : childReferences (layered n k) = [] := by
  have hsplit := split_layered (fun hc => readTag_cons_of_ne hc) (fun _ => rfl)
    (readTag_renderSelfClosing (isAttribute_kernel n)) k
  have hspans : spans readTag (layered n k) =
      place (k + 2) (.hit (.selfClosing (selfClosingBody (kernelAttributes n))) (kernel n) ::
        (halves n k).map .gap) := by
    rw [spans, hsplit, place_gaps]
    simp
  have hnone : place (k + 2 + (kernel n).length) ((halves n k).map Piece.gap) =
      ([] : List (Span Tag)) := by
    have hgaps := place_gaps (k + 2 + (kernel n).length) (halves n k) ([] : List (Piece Tag))
    rwa [List.append_nil] at hgaps
  rw [childReferences, hspans, place, hnone]
  rfl

theorem selfClosingAttributes?_kernel (n : Nat) :
    selfClosingAttributes? (kernel n) = some (Table.ofList (kernelAttributes n)) :=
  selfClosingAttributes?_renderSelfClosing (List.cons_ne_nil _ _) (isAttribute_kernel n)

end StaticSite.Markup
