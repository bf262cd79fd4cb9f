import StaticSite.Proofs.Markup.Layers

/-!
# Peeling layers

A pass that replaces kernels by the letter `C`, every other reference of self-closing form by a
layered kernel, and leaves malformed tags as they are. What it leaves of a text without kernels
refers to nothing but kernels.
-/

namespace StaticSite

namespace Text

variable {α : Type} {read : Recogniser α}

theorem exists_of_mem_splitAfter {skip : Nat} {s source : Text} {a : α}
    (h : .hit a source ∈ splitAfter read skip s) : ∃ u rest, u <:+ s ∧ read u = some (a, rest) := by
  induction s generalizing skip with
  | nil => cases skip <;> cases h
  | cons c s ih =>
      have hlater : ∀ {skip}, .hit a source ∈ splitAfter read skip s →
          ∃ u rest, u <:+ c :: s ∧ read u = some (a, rest) := by
        intro skip h
        obtain ⟨u, rest, hu, hread⟩ := ih h
        exact ⟨u, rest, hu.trans (List.suffix_cons c s), hread⟩
      cases skip with
      | succ skip => exact hlater h
      | zero =>
          rw [splitAfter] at h
          split at h
          · rcases List.mem_cons.mp h with h | h
            · cases h
            · exact hlater h
          · rename_i b rest hread
            rcases List.mem_cons.mp h with h | h
            · cases h
              exact ⟨c :: s, rest, List.suffix_refl _, hread⟩
            · exact hlater h

theorem exists_of_mem_readAll {s : Text} {a : α} (h : a ∈ readAll read s) :
    ∃ u rest, u <:+ s ∧ read u = some (a, rest) := by
  obtain ⟨piece, hpiece, ha⟩ := List.mem_filterMap.mp h
  cases piece with
  | gap c => cases ha
  | hit b source =>
      cases ha
      exact exists_of_mem_splitAfter hpiece

end Text

namespace Markup

open Text

/-- What a self-closing tag names, with its props. -/
def named? (source : Text) : Option (Text × Props) := do
  let props ← selfClosingAttributes? source
  let identifier ← props.get? sourceName
  return (identifier, props)

theorem selfClosingReference?_eq (tag : Span Unit) :
    selfClosingReference? tag = (named? tag.source).map fun r =>
      { form := .selfClosing, identifier := r.1, props := r.2, start := tag.start,
        stop := tag.stop, source := tag.source } := by
  unfold selfClosingReference? named? Reference.ofSelfClosing?
  cases selfClosingAttributes? tag.source with
  | none => rfl
  | some props =>
      simp only [Option.bind_eq_bind, Option.bind_some]
      cases props.get? sourceName <;> rfl

section Length

theorem length_le_of_readAttribute {inName : Char → Bool} {s rest : Text} {a : Text × Text}
    (h : readAttribute inName s = some (a, rest)) : a.1.length ≤ s.length := by
  obtain ⟨-, -, -, rfl⟩ := eq_of_readAttribute h
  rw [List.length_append]
  omega

theorem length_le_of_readAttributeRegion {s region rest : Text}
    (h : readAttributeRegion s = some (region, rest)) : region.length ≤ s.length := by
  unfold readAttributeRegion at h
  simp only [Option.bind_eq_bind, Option.bind_eq_some_iff] at h
  obtain ⟨opened, hopen, ⟨body, more⟩, hcut, h⟩ := h
  rw [after?_eq_some_iff] at hopen
  rw [cut?_eq_some_iff] at hcut
  have hbody : body.length ≤ s.length := by
    rw [hopen, hcut.1]
    simp only [List.length_append, List.length_cons]
    omega
  have hregion : (dropBlanks body.dropLast).length ≤ body.dropLast.length :=
    (List.dropWhile_sublist isBlank).length_le
  rw [List.length_dropLast] at hregion
  split at h
  · cases h
  · dsimp only at h
    by_cases hblanks : (blanks body.dropLast).length <
        if (dropBlanks body.dropLast).isEmpty then 2 else 1
    · rw [if_pos hblanks] at h
      cases h
    · rw [if_neg hblanks] at h
      cases h
      omega

theorem length_le_of_named? {source name value : Text} {r : Text × Props}
    (h : named? source = some r) (hget : r.2.get? name = some value) :
    name.length ≤ source.length := by
  unfold named? selfClosingAttributes? at h
  simp only [Option.bind_eq_bind, Option.bind_eq_some_iff, Option.map_eq_some_iff] at h
  obtain ⟨props, ⟨⟨region, more⟩, hregion, rfl⟩, identifier, -, h⟩ := h
  cases h
  obtain ⟨u, hu, hread⟩ := exists_of_readFirst? hregion
  have hmem := Table.mem_of_mem_ofList (Table.mem_of_get?_eq_some hget)
  obtain ⟨v, rest, hv, hattribute⟩ := exists_of_mem_readAll hmem
  calc
    name.length ≤ v.length := length_le_of_readAttribute hattribute
    _ ≤ region.length := hv.length_le
    _ ≤ u.length := length_le_of_readAttributeRegion hread
    _ ≤ source.length := hu.length_le

end Length

/-! ## The pass -/

section Peel

variable (n : Nat)

def isKernel (r : Text × Props) : Bool := r.1.isEmpty && (r.2.get? (kernelName n)).isSome

/-- What gives way to what: a kernel to the letter that completes the halves around it. -/
def peeled (source : Text) : Text :=
  match named? source with
  | none => source
  | some r => if isKernel n r then "C" else layered n 1

def peel (s : Text) : Text := replaceAll readSelfClosing (fun _ => peeled n) s

theorem named?_kernel : named? (kernel n) = some ([], Table.ofList (kernelAttributes n)) := by
  have hother : kernelName n ≠ sourceName := by
    rw [kernelName, List.replicate_succ]
    simp [sourceName]
  have hget : (Table.ofList (kernelAttributes n)).get? sourceName = some [] := by
    simp [Table.ofList, kernelAttributes, Table.get?_set, hother]
  unfold named?
  rw [selfClosingAttributes?_kernel, Option.bind_eq_bind, Option.bind_some, hget]
  rfl

theorem isKernel_kernel : isKernel n ([], Table.ofList (kernelAttributes n)) = true := by
  have hget : ((Table.ofList (kernelAttributes n)).get? (kernelName n)).isSome :=
    Table.isSome_get?_ofList ⟨_, List.mem_cons_of_mem _ List.mem_cons_self, rfl⟩
  simp [isKernel, hget]

theorem peeled_kernel : peeled n (kernel n) = "C" := by
  rw [peeled, named?_kernel]
  exact if_pos (isKernel_kernel n)

theorem peel_append_block {w : Text} (h : IsBlock w) (s t : Text) :
    peel n (s ++ (w ++ t)) = peel n s ++ (peel n w ++ peel n t) := by
  simp [peel, replaceAll, split_append_block h]

theorem flatMap_gap (write : Unit → Text → Text) (s : Text) :
    (s.map Piece.gap).flatMap (Piece.replaced write) = s := by
  induction s with
  | nil => rfl
  | cons c s ih => simpa [Piece.replaced] using ih

/-- A pass takes one layer. -/
theorem peel_layered (k : Nat) : peel n (layered n (k + 1)) = layered n k := by
  have hhalves : halves n (k + 1) = kernelTail n ++ halves n k := by
    simp [halves, List.replicate_succ]
  rw [peel, replaceAll, split_readSelfClosing_layered, List.flatMap_append, List.flatMap_cons,
    flatMap_gap, flatMap_gap, Piece.replaced, peeled_kernel, hhalves, layered, kernel_eq,
    List.replicate_succ']
  simp

variable {n}

theorem isKernel_eq_false {source : Text} {r : Text × Props} (h : named? source = some r)
    (hlength : source.length ≤ n) : isKernel n r = false := by
  cases hget : r.2.get? (kernelName n) with
  | none => simp [isKernel, hget]
  | some value =>
      have hle := length_le_of_named? h hget
      rw [kernelName, List.length_replicate] at hle
      omega

/-! ## Peeling a text without kernels -/

/-- The pieces that a piece gives way to. -/
def peeledPieces (n : Nat) : Piece Unit → List (Piece Unit)
  | .gap c => [.gap c]
  | .hit _ source =>
      if (named? source).isSome then split readSelfClosing (layered n 1) else [.hit () source]

theorem exists_of_readSelfClosing {source rest : Text} {a : Unit}
    (h : readSelfClosing (source ++ rest) = some (a, rest)) :
    ∃ whole, source = whole ++ ['>'] ∧ '>' ∉ whole ∧ isSelfClosing whole := by
  obtain ⟨whole, more, hcut, hwhole⟩ := List.eq_append_cons_of_mem (mem_of_readSelfClosing h)
  rw [hcut, readSelfClosing_of_cut hwhole] at h
  split at h
  · rename_i hshape
    cases h
    have happend : source ++ rest = whole ++ ['>'] ++ rest := by
      rw [hcut]
      simp
    exact ⟨whole, List.append_cancel_right happend, hwhole, hshape⟩
  · cases h

theorem peel_cons_of_none {c : Char} {s : Text} (h : readSelfClosing (c :: s) = none) :
    peel n (c :: s) = c :: peel n s :=
  replaceAll_cons_of_none _ h

theorem peel_of_some {source rest : Text} (hne : source ≠ [])
    (h : readSelfClosing (source ++ rest) = some ((), rest)) :
    peel n (source ++ rest) = peeled n source ++ peel n rest :=
  replaceAll_of_some _ hne h

theorem peeled_eq_layered {source : Text} (h : (named? source).isSome)
    (hlength : source.length ≤ n) : peeled n source = layered n 1 := by
  obtain ⟨r, hr⟩ := Option.isSome_iff_exists.mp h
  rw [peeled, hr]
  exact if_neg (by simp [isKernel_eq_false hr hlength])

theorem peeled_eq_self {source : Text} (h : (named? source).isSome = false) :
    peeled n source = source := by
  rw [peeled, show named? source = none by simpa using h]

/-- Up to its first `>`, a peeled text is as before, or a dot stands before that `>`. -/
theorem peel_cut {s : Text} (h : s.length ≤ n) :
    (∃ whole rest rest', '>' ∉ whole ∧ s = whole ++ '>' :: rest ∧
        peel n s = whole ++ '>' :: rest') ∨
      (∃ left rest, '>' ∉ left ∧ peel n s = left ++ '.' :: '>' :: rest) ∨ peel n s = s := by
  induction s using split_induction consumes_readSelfClosing with
  | nil => exact .inr (.inr rfl)
  | gap c s hread ih =>
      rw [peel_cons_of_none hread]
      by_cases hc : c = '>'
      · exact .inl ⟨[], s, peel n s, by simp, by rw [hc]; rfl, by rw [hc]; rfl⟩
      · rcases ih (by simp at h; omega) with ⟨whole, rest, rest', hwhole, hs, hpeel⟩ |
          ⟨left, rest, hleft, hpeel⟩ | hpeel
        · exact .inl ⟨c :: whole, rest, rest', by simp [hwhole, Ne.symm hc], by rw [hs]; rfl,
            by rw [hpeel]; rfl⟩
        · exact .inr (.inl ⟨c :: left, rest, by simp [hleft, Ne.symm hc], by rw [hpeel]; rfl⟩)
        · exact .inr (.inr (by rw [hpeel]))
  | hit a source rest hne hread ih =>
      rw [peel_of_some hne hread]
      rw [List.length_append] at h
      cases hnamed : (named? source).isSome with
      | false =>
          obtain ⟨whole, hsource, hwhole, -⟩ := exists_of_readSelfClosing hread
          refine .inl ⟨whole, rest, peel n rest, hwhole, ?_, ?_⟩
          · rw [hsource]
            simp
          · rw [peeled_eq_self hnamed, hsource]
            simp
      | true =>
          rw [peeled_eq_layered hnamed (by omega)]
          exact .inr (.inl ⟨[], _, by simp, rfl⟩)

theorem readSelfClosing_cons_peel {c : Char} {s : Text} (h : s.length ≤ n)
    (hread : readSelfClosing (c :: s) = none) : readSelfClosing (c :: peel n s) = none := by
  by_cases hc : c = '<'
  · have hne : '>' ≠ c := by simp [hc]
    rcases peel_cut h with ⟨whole, rest, rest', hwhole, hs, hpeel⟩ | ⟨left, rest, hleft, hpeel⟩ |
      hpeel
    · have hmem : '>' ∉ c :: whole := by simp [hne, hwhole]
      have hbefore := readSelfClosing_of_cut hmem rest
      have hafter := readSelfClosing_of_cut hmem rest'
      rw [List.cons_append] at hbefore hafter
      rw [hs, hbefore] at hread
      rw [hpeel, hafter]
      split at hread
      · cases hread
      · rename_i hshape
        exact if_neg hshape
    · rw [hpeel]
      have hnone : '>' ∉ c :: left := by simp [hne, hleft]
      exact readSelfClosing_append_of_ne (by decide) (by decide) hnone rest
    · rw [hpeel, hread]
  · exact readSelfClosing_cons_of_ne hc _

theorem split_peel {s : Text} (h : s.length ≤ n) :
    split readSelfClosing (peel n s) = (split readSelfClosing s).flatMap (peeledPieces n) := by
  induction s using split_induction consumes_readSelfClosing with
  | nil => rfl
  | gap c s hread ih =>
      have hs : s.length ≤ n := by
        rw [List.length_cons] at h
        omega
      rw [peel_cons_of_none hread, split_cons_of_none hread,
        split_cons_of_none (readSelfClosing_cons_peel hs hread), ih hs]
      rfl
  | hit a source rest hne hread ih =>
      rw [List.length_append] at h
      rw [peel_of_some hne hread, split_of_some hne hread, List.flatMap_cons,
        ← ih (by omega)]
      cases hnamed : (named? source).isSome with
      | false =>
          obtain ⟨whole, hsource, hwhole, hshape⟩ := exists_of_readSelfClosing hread
          have hagain : readSelfClosing (source ++ peel n rest) = some ((), peel n rest) := by
            rw [hsource, List.append_assoc, List.singleton_append, readSelfClosing_of_cut hwhole,
              if_pos hshape]
          rw [peeled_eq_self hnamed, split_of_some hne hagain, peeledPieces, hnamed]
          rfl
      | true =>
          have hblock := split_append_block (isBlock_layered n 1) [] (peel n rest)
          rw [peeled_eq_layered hnamed (by omega), peeledPieces, if_pos hnamed]
          exact hblock

/-! ## What a pass leaves -/

variable (n) in
/-- A text in which nothing but kernels refers to components. -/
def IsInert (s : Text) : Prop :=
  ∀ source r, .hit () source ∈ split readSelfClosing s → named? source = some r → isKernel n r

/-- A text in which some tag of self-closing form refers to a component. -/
def IsActive (s : Text) : Prop :=
  ∃ source, .hit () source ∈ split readSelfClosing s ∧ (named? source).isSome

theorem isActive_append_layered (s : Text) (k : Nat) (t : Text) :
    IsActive (s ++ (layered n k ++ t)) := by
  refine ⟨kernel n, ?_, by rw [named?_kernel]; rfl⟩
  rw [split_append_block (isBlock_layered n k), split_readSelfClosing_layered]
  simp

theorem eq_kernel_of_mem_layered {k : Nat} {source : Text}
    (h : .hit () source ∈ split readSelfClosing (layered n k)) : source = kernel n := by
  rw [split_readSelfClosing_layered] at h
  simpa using h

theorem isInert_layered (k : Nat) : IsInert n (layered n k) := by
  intro source r hsource hr
  rw [eq_kernel_of_mem_layered hsource, named?_kernel] at hr
  cases hr
  exact isKernel_kernel n

theorem isInert_append_block {w : Text} (hw : IsBlock w) {s t : Text} (hs : IsInert n s)
    (hinert : IsInert n w) (ht : IsInert n t) : IsInert n (s ++ (w ++ t)) := by
  intro source r hsource hr
  rw [split_append_block hw, List.mem_append, List.mem_append] at hsource
  rcases hsource with h | h | h
  · exact hs source r h hr
  · exact hinert source r h hr
  · exact ht source r h hr

theorem isInert_peel {s : Text} (h : s.length ≤ n) : IsInert n (peel n s) := by
  intro source r hsource hr
  rw [split_peel h] at hsource
  obtain ⟨piece, hpiece, hmem⟩ := List.mem_flatMap.mp hsource
  cases piece with
  | gap c => simp [peeledPieces] at hmem
  | hit a old =>
      rw [peeledPieces] at hmem
      split at hmem
      · exact isInert_layered 1 source r hmem hr
      · rename_i hnamed
        cases List.mem_singleton.mp hmem
        simp [hr] at hnamed

theorem isActive_peel {s : Text} (h : s.length ≤ n) (hactive : IsActive s) :
    IsActive (peel n s) := by
  obtain ⟨source, hsource, hnamed⟩ := hactive
  refine ⟨kernel n, ?_, by rw [named?_kernel]; rfl⟩
  rw [split_peel h]
  refine List.mem_flatMap.mpr ⟨_, hsource, ?_⟩
  rw [peeledPieces, if_pos hnamed, split_readSelfClosing_layered]
  simp

theorem count_peeled_lt {source rest : Text} {a : Unit} {r : Text × Props}
    (hread : readSelfClosing (source ++ rest) = some (a, rest)) (hr : named? source = some r)
    (hkernel : isKernel n r) : (peeled n source).count '<' < source.count '<' := by
  obtain ⟨whole, hsource, -, hshape⟩ := exists_of_readSelfClosing hread
  have hmem : '<' ∈ source := by
    rw [hsource, List.mem_append]
    exact .inl (mem_of_isSelfClosing hshape)
  have hnone : (peeled n source).count '<' = 0 := by
    rw [peeled, hr]
    exact (congrArg _ (if_pos hkernel)).trans (by decide)
  rw [hnone]
  exact List.count_pos_iff.mpr hmem

/-- A pass over an inert text takes the mark `<` of every tag that refers to a component. -/
theorem count_peel {s : Text} (h : IsInert n s) :
    (peel n s).count '<' ≤ s.count '<' ∧
      (IsActive s → (peel n s).count '<' < s.count '<') := by
  induction s using split_induction consumes_readSelfClosing with
  | nil =>
      refine ⟨Nat.le_refl _, ?_⟩
      rintro ⟨source, hsource, -⟩
      cases hsource
  | gap c s hread ih =>
      rw [peel_cons_of_none hread, List.count_cons, List.count_cons]
      have hs : IsInert n s := fun source r hsource hr =>
        h source r (by rw [split_cons_of_none hread]; exact List.mem_cons_of_mem _ hsource) hr
      obtain ⟨hle, hlt⟩ := ih hs
      refine ⟨by omega, ?_⟩
      rintro ⟨source, hsource, hnamed⟩
      rw [split_cons_of_none hread] at hsource
      have := hlt ⟨source, by simpa using hsource, hnamed⟩
      omega
  | hit a source rest hne hread ih =>
      rw [peel_of_some hne hread, List.count_append, List.count_append]
      have hrest : IsInert n rest := fun other r hother hr =>
        h other r (by rw [split_of_some hne hread]; exact List.mem_cons_of_mem _ hother) hr
      obtain ⟨hle, hlt⟩ := ih hrest
      cases hnamed : (named? source).isSome with
      | false =>
          rw [peeled_eq_self hnamed]
          refine ⟨by omega, ?_⟩
          rintro ⟨other, hother, hothernamed⟩
          rw [split_of_some hne hread] at hother
          rcases List.mem_cons.mp hother with heq | hother
          · cases heq
            rw [hnamed] at hothernamed
            cases hothernamed
          · have := hlt ⟨other, hother, hothernamed⟩
            omega
      | true =>
          obtain ⟨r, hr⟩ := Option.isSome_iff_exists.mp hnamed
          have hkernel := h source r (by rw [split_of_some hne hread]; exact List.mem_cons_self) hr
          have := count_peeled_lt hread hr hkernel
          exact ⟨by omega, fun _ => by omega⟩

end Peel

end Markup

end StaticSite
