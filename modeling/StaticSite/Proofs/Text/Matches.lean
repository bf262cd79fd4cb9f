import StaticSite.Proofs.Text.Moved

/-!
# Matches

The matches of a text from left to right, and what a second search finds after a pass has put some
of them in other words. A match can begin nowhere that it did not begin before, provided that none
begins in the new words and none reaches into them from the text before.
-/

namespace StaticSite.Text

variable {α : Type}

def Piece.hit? : Piece α → Option (α × Text)
  | .gap _ => none
  | .hit a source => some (a, source)

/-- The matches of a text, each with the stretch it takes. -/
def hits (read : Recogniser α) (s : Text) : List (α × Text) := (split read s).filterMap Piece.hit?

/-- A match in the words that a pass has for it, or as it stands. -/
def reworded (put : α → Text → Option Text) (a : α) (source : Text) : Text :=
  (put a source).getD source

/-- The pieces of what a piece has become, if no match begins in the new words. -/
def Piece.again (put : α → Text → Option Text) : Piece α → List (Piece α)
  | .gap c => [.gap c]
  | .hit a source =>
      match put a source with
      | none => [.hit a source]
      | some block => block.map .gap

section Split

variable {read : Recogniser α} {s source : Text} {ps qs : List (Piece α)} {a : α}

theorem mem_hits_of_split (h : split read s = ps ++ .hit a source :: qs) :
    (a, source) ∈ hits read s := by
  rw [hits, h, List.filterMap_append]
  exact List.mem_append_right _ List.mem_cons_self

theorem read_of_split (consumes : read.Consumes) (h : split read s = ps ++ .hit a source :: qs) :
    read (source ++ qs.flatMap Piece.source) = some (a, qs.flatMap Piece.source) := by
  induction s using split_induction consumes generalizing ps with
  | nil => simp [split, splitAfter] at h
  | gap c t hread ih =>
      rw [split_cons_of_none hread] at h
      cases ps with
      | nil => cases h
      | cons p ps => exact ih (List.cons.inj h).2
  | hit b matched rest hne hread ih =>
      rw [split_of_some hne hread] at h
      cases ps with
      | nil =>
          cases h
          rw [source_split consumes]
          exact hread
      | cons p ps => exact ih (List.cons.inj h).2

end Split

/-- What is read from `before` on does not change with what follows it, unless it is a match that
goes on beyond `before`. -/
def SeenAlike (read : Recogniser α) (before left right : Text) : Prop :=
  (read (before ++ left) = none → read (before ++ right) = none) ∧
    ∀ a rest, read (before ++ left) = some (a, rest ++ left) →
      read (before ++ right) = some (a, rest ++ right)

section SeenAlike

variable {read : Recogniser α} {before left right : Text}

theorem SeenAlike.refl : SeenAlike read before left left := ⟨id, fun _ _ => id⟩

theorem SeenAlike.of_append {u v : Text} (h : SeenAlike read (u ++ v) left right) :
    SeenAlike read u (v ++ left) (v ++ right) := by
  obtain ⟨hnone, hsome⟩ := h
  simp only [List.append_assoc] at hnone hsome
  refine ⟨hnone, fun a rest hread => ?_⟩
  have hright := hsome a (rest ++ v) (by rwa [List.append_assoc])
  rwa [List.append_assoc] at hright

/-- A match that ends in `before` is seen alike. -/
theorem SeenAlike.of_map {found : Option (α × Text)}
    (hleft : read (before ++ left) = found.map fun m => (m.1, m.2 ++ left))
    (hright : read (before ++ right) = found.map fun m => (m.1, m.2 ++ right)) :
    SeenAlike read before left right := by
  rw [SeenAlike, hleft, hright]
  cases found with
  | none => simp
  | some m =>
      refine ⟨fun hnone => by simp at hnone, fun a rest hsome => ?_⟩
      simp only [Option.map_some, Option.some.injEq, Prod.mk.injEq, List.append_cancel_right_eq]
        at hsome ⊢
      exact ⟨hsome.1, by rw [hsome.2]⟩

/-- A match that goes on beyond `before` need not be seen alike, but there is none in its stead. -/
theorem SeenAlike.of_beyond
    (hbeyond : ∀ a rest, read (before ++ left) = some (a, rest) → rest.length < left.length)
    (hnone : read (before ++ left) = none → read (before ++ right) = none) :
    SeenAlike read before left right := by
  refine ⟨hnone, fun a rest hread => ?_⟩
  have hlen := hbeyond a (rest ++ left) hread
  rw [List.length_append] at hlen
  omega

theorem SeenAlike.of_short {a : α} {rest : Text} (hread : read (before ++ left) = some (a, rest))
    (hshort : rest.length < left.length) : SeenAlike read before left right := by
  refine .of_beyond (fun b more hmore => ?_) (fun hnone => ?_)
  · rw [hread] at hmore
    cases hmore
    exact hshort
  · rw [hread] at hnone
    cases hnone

/-- Of several places to read from, all seen alike, the first one with a match counts. -/
theorem seenAlike_findSome? {us : List Text} (h : ∀ u ∈ us, SeenAlike read u left right) :
    ((us.map (· ++ left)).findSome? read = none → (us.map (· ++ right)).findSome? read = none) ∧
      ∀ a rest, (us.map (· ++ left)).findSome? read = some (a, rest ++ left) →
        (us.map (· ++ right)).findSome? read = some (a, rest ++ right) := by
  induction us with
  | nil => simp
  | cons u us ih =>
      obtain ⟨⟨hnone, hsome⟩, hrest⟩ := List.forall_mem_cons.mp h
      simp only [List.map_cons, List.findSome?_cons]
      cases hu : read (u ++ left) with
      | none =>
          rw [hnone hu]
          exact ih hrest
      | some m =>
          refine ⟨by simp, fun a rest hm => ?_⟩
          simp only [Option.some.injEq] at hm
          rw [hsome a rest (by rw [hu, hm])]

end SeenAlike

/-- No match of the text that the pass puts in other words makes room for a new one. -/
structure Settles (read : Recogniser α) (put : α → Text → Option Text) (s : Text) : Prop where
  spares : ∀ {ps qs : List (Piece α)} {a : α} {source block : Text},
    split read s = ps ++ .hit a source :: qs → put a source = some block → read.Spares block
  alike : ∀ {ps qs : List (Piece α)} {a : α} {source block : Text},
    split read s = ps ++ .hit a source :: qs → put a source = some block →
      ∀ {v : Text}, v ≠ [] → v <:+ ps.flatMap (Piece.replaced (reworded put)) → ∀ rest,
        SeenAlike read v (source ++ qs.flatMap Piece.source) (block ++ rest)

variable {read : Recogniser α} {put : α → Text → Option Text}

/-- A pass leaves everything, or there is a first match that it puts in other words. -/
theorem exists_first_reworded (ps : List (Piece α)) :
    ps.flatMap (Piece.replaced (reworded put)) = ps.flatMap Piece.source ∨
      ∃ qs a source rs block, ps = qs ++ .hit a source :: rs ∧ put a source = some block ∧
        qs.flatMap (Piece.replaced (reworded put)) = qs.flatMap Piece.source := by
  induction ps with
  | nil => exact .inl rfl
  | cons p ps ih =>
      have hkept (hp : p.replaced (reworded put) = p.source) :
          (p :: ps).flatMap (Piece.replaced (reworded put)) = (p :: ps).flatMap Piece.source ∨
          ∃ qs a source rs block, p :: ps = qs ++ .hit a source :: rs ∧ put a source = some block ∧
            qs.flatMap (Piece.replaced (reworded put)) = qs.flatMap Piece.source := by
        rcases ih with hsame | ⟨qs, a, source, rs, block, rfl, hput, hqs⟩
        · exact .inl (by rw [List.flatMap_cons, List.flatMap_cons, hp, hsame])
        · exact .inr ⟨p :: qs, a, source, rs, block, rfl, hput,
            by rw [List.flatMap_cons, List.flatMap_cons, hp, hqs]⟩
      cases p with
      | gap c => exact hkept rfl
      | hit a source =>
          cases hput : put a source with
          | none => exact hkept (by simp only [Piece.replaced, reworded, hput]; rfl)
          | some block => exact .inr ⟨[], a, source, ps, block, rfl, hput, rfl⟩

section Pass

variable {s t : Text} {p : Piece α}

theorem split_cons_of_split {ps qs : List (Piece α)} {a : α} {source : Text}
    (hs : split read s = p :: split read t) (ht : split read t = ps ++ .hit a source :: qs) :
    split read s = (p :: ps) ++ .hit a source :: qs := by
  rw [hs, ht, List.cons_append]

theorem Settles.tail (h : Settles read put s) (hs : split read s = p :: split read t) :
    Settles read put t := by
  refine ⟨fun hsplit hput => ?_, fun hsplit hput _ hne hv => ?_⟩
  · exact h.spares (split_cons_of_split hs hsplit) hput
  · refine h.alike (split_cons_of_split hs hsplit) hput hne (hv.trans ?_)
    rw [List.flatMap_cons]
    exact List.suffix_append _ _

/-- What is read at a piece that stays does not change when the pass goes over the rest. -/
theorem Settles.seenAlike (consumes : read.Consumes) (h : Settles read put s)
    (hs : split read s = p :: split read t) (hkept : p.replaced (reworded put) = p.source)
    (hne : p.source ≠ []) :
    SeenAlike read p.source t (replaceAll read (reworded put) t) := by
  have ht := source_split consumes t
  rcases @exists_first_reworded _ put (split read t) with hsame | ⟨qs, a, source, rs, block, hsplit,
    hput, hqs⟩
  · rw [replaceAll, hsame, ht]
    exact .refl
  · have hreplaced : replaceAll read (reworded put) t =
        qs.flatMap Piece.source ++ (block ++ rs.flatMap (Piece.replaced (reworded put))) := by
      rw [replaceAll_of_split _ hsplit, hqs, reworded, hput]
      rfl
    rw [hsplit, List.flatMap_append, List.flatMap_cons] at ht
    rw [hreplaced, ← ht]
    have hleft : (p :: qs).flatMap (Piece.replaced (reworded put)) =
        p.source ++ qs.flatMap Piece.source := by rw [List.flatMap_cons, hkept, hqs]
    apply SeenAlike.of_append
    refine h.alike (split_cons_of_split hs hsplit) hput (by simp [hne]) ?_ _
    exact hleft ▸ List.suffix_refl _

/-- A second search finds the pieces of the first, with runs of characters for the matches that
were put in other words. -/
theorem split_replaceAll (consumes : read.Consumes) (h : Settles read put s) :
    split read (replaceAll read (reworded put) s) = (split read s).flatMap (Piece.again put) := by
  induction s using split_induction consumes with
  | nil => rfl
  | gap c t hread ih =>
      have hs := split_cons_of_none hread
      have hnone := (h.seenAlike consumes hs rfl (by simp [Piece.source])).1 hread
      rw [replaceAll_cons_of_none _ hread, hs, List.flatMap_cons, ← ih (h.tail hs)]
      exact split_cons_of_none hnone
  | hit a source rest hne hread ih =>
      have hs := split_of_some hne hread
      rw [replaceAll_of_some _ hne hread, hs, List.flatMap_cons, ← ih (h.tail hs), Piece.again]
      cases hput : put a source with
      | none =>
          have hsame : reworded put a source = source := by rw [reworded, hput]; rfl
          rw [hsame]
          exact split_of_some hne ((h.seenAlike consumes hs hsame hne).2 a [] hread)
      | some block =>
          have hspares : read.Spares block := @Settles.spares _ _ _ _ h [] _ a source block hs hput
          rw [reworded, hput]
          exact split_append_of_none fun u hu hsuffix => hspares u hu hsuffix _

/-- A pass has nothing more to do after it has run once. -/
theorem replaceAll_again (consumes : read.Consumes) (h : Settles read put s) :
    replaceAll read (reworded put) (replaceAll read (reworded put) s) =
      replaceAll read (reworded put) s := by
  have hpiece (p : Piece α) :
      (p.again put).flatMap (Piece.replaced (reworded put)) = p.replaced (reworded put) := by
    cases p with
    | gap c => rfl
    | hit a source =>
        rw [Piece.again, Piece.replaced]
        cases hput : put a source with
        | none => simp [Piece.replaced]
        | some block => simp [reworded, hput, List.flatMap_map, Piece.replaced]
  rw [replaceAll, split_replaceAll consumes h, List.flatMap_assoc, replaceAll]
  simp only [hpiece]

/-- The matches that a second search finds are those that the pass left as they stood. -/
theorem hits_replaceAll (consumes : read.Consumes) (h : Settles read put s) :
    hits read (replaceAll read (reworded put) s) =
      (hits read s).filter fun m => (put m.1 m.2).isNone := by
  rw [hits, hits, split_replaceAll consumes h]
  induction split read s with
  | nil => rfl
  | cons p ps ih =>
      rw [List.flatMap_cons, List.filterMap_append, ih]
      cases p with
      | gap c => rfl
      | hit a source =>
          cases hput : put a source with
          | none => simp [Piece.again, Piece.hit?, hput]
          | some block =>
              simp [Piece.again, Piece.hit?, hput, List.filterMap_map, Function.comp_def]

end Pass

end StaticSite.Text
