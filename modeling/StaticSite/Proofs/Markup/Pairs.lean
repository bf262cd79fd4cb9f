import StaticSite.Proofs.Markup.Places

/-!
# Pairs of tags

Each opening tag is paired with the first closing tag behind it at which as many tags have been
closed as opened. Pairs are nested or apart (`TagPair.nested`), because the count stays above
that of an opening tag until this one is closed. The references with children are the outermost
pairs that name a component.
-/

namespace StaticSite.Markup

open Text

/-! ## Counting open tags -/

/-- How much a tag adds to the count of open tags. -/
def Tag.weight : Tag → Int
  | .opening _ => 1
  | .selfClosing _ => 0
  | .closing => -1

def openCount : List (Span Tag) → Int
  | [] => 0
  | tag :: tags => tag.value.weight + openCount tags

@[simp] theorem openCount_nil : openCount [] = 0 := rfl

@[simp] theorem openCount_cons (tag : Span Tag) (tags : List (Span Tag)) :
    openCount (tag :: tags) = tag.value.weight + openCount tags := rfl

theorem openCount_append (tags more : List (Span Tag)) :
    openCount (tags ++ more) = openCount tags + openCount more := by
  induction tags with
  | nil => simp
  | cons tag tags ih =>
      rw [List.cons_append, openCount_cons, ih, openCount_cons]
      omega

theorem openCount_take_succ {tags : List (Span Tag)} {k : Nat} {tag : Span Tag}
    (h : tags[k]? = some tag) :
    openCount (tags.take (k + 1)) = openCount (tags.take k) + tag.value.weight := by
  rw [List.take_add_one, h, openCount_append]
  simp

theorem eq_closing_of_weight {tag : Tag} (h : tag.weight < 0) : tag = .closing := by
  cases tag with
  | closing => rfl
  | opening body | selfClosing body => simp [Tag.weight] at h

theorem neg_one_le_weight (tag : Tag) : -1 ≤ tag.weight := by cases tag <;> simp [Tag.weight]

/-- Counted from `depth` on, the tag at place `k` is the first closing one at which the count is
zero. -/
structure ClosesAt (depth : Int) (tags : List (Span Tag)) (k : Nat) (close : Span Tag) :
    Prop where
  stands : tags[k]? = some close
  closing : close.value = .closing
  zero : depth + openCount (tags.take (k + 1)) = 0
  earliest : ∀ j < k, ∀ tag, tags[j]? = some tag → tag.value = .closing →
    depth + openCount (tags.take (j + 1)) ≠ 0

namespace ClosesAt

variable {depth : Int} {tags : List (Span Tag)} {k : Nat} {close : Span Tag}

theorem unique {j : Nat} {other : Span Tag} (h : ClosesAt depth tags k close)
    (h' : ClosesAt depth tags j other) : k = j := by
  rcases Nat.lt_trichotomy k j with hlt | heq | hlt
  · exact absurd h.zero (h'.earliest k hlt close h.stands h.closing)
  · exact heq
  · exact absurd h'.zero (h.earliest j hlt other h'.stands h'.closing)

/-- The count stays positive until a tag brings it to zero, as it falls by one at a time. -/
theorem pos_or_exists (tags : List (Span Tag)) (hdepth : 0 < depth) (m : Nat) :
    (∀ j ≤ m, 0 < depth + openCount (tags.take j)) ∨
      ∃ k close, k < m ∧ ClosesAt depth tags k close := by
  induction m with
  | zero =>
      left
      intro j hj
      rw [Nat.le_zero.mp hj]
      simpa using hdepth
  | succ m ih =>
      rcases ih with hpos | ⟨k, close, hk, hcloses⟩
      · by_cases hnext : 0 < depth + openCount (tags.take (m + 1))
        · left
          intro j hj
          rcases Nat.lt_or_eq_of_le hj with hlt | rfl
          · exact hpos j (by omega)
          · exact hnext
        · right
          have hbefore := hpos m (Nat.le_refl m)
          cases htag : tags[m]? with
          | none =>
              have hlength := List.getElem?_eq_none_iff.mp htag
              rw [List.take_of_length_le (by omega)] at hnext hbefore
              omega
          | some close =>
              have hstep := openCount_take_succ htag
              have hweight := neg_one_le_weight close.value
              have hclosing := eq_closing_of_weight (show close.value.weight < 0 by omega)
              refine ⟨m, close, by omega, htag, hclosing, by omega, fun j hj tag _ _ => ?_⟩
              have := hpos (j + 1) (by omega)
              omega
      · exact .inr ⟨k, close, by omega, hcloses⟩

/-- Up to the tag that brings the count to zero it is positive. -/
theorem pos (h : ClosesAt depth tags k close) (hdepth : 0 < depth) {j : Nat} (hj : j ≤ k) :
    0 < depth + openCount (tags.take j) := by
  rcases pos_or_exists tags hdepth k with hpos | ⟨i, other, hi, hcloses⟩
  · exact hpos j hj
  · have := h.unique hcloses
    omega

theorem cons_zero {tag : Span Tag} :
    ClosesAt depth (tag :: tags) 0 close ↔ tag = close ∧ tag.value = .closing ∧ depth = 1 := by
  constructor
  · rintro ⟨hstands, hclosing, hzero, -⟩
    cases hstands
    rw [List.take_succ_cons, openCount_cons, hclosing] at hzero
    refine ⟨rfl, hclosing, ?_⟩
    simp only [Tag.weight, List.take_zero, openCount_nil] at hzero
    omega
  · rintro ⟨rfl, hclosing, rfl⟩
    refine ⟨rfl, hclosing, ?_, fun j hj => absurd hj (Nat.not_lt_zero j)⟩
    rw [List.take_succ_cons, openCount_cons, hclosing]
    rfl

theorem cons_succ {tag : Span Tag} :
    ClosesAt depth (tag :: tags) (k + 1) close ↔
      ¬(tag.value = .closing ∧ depth = 1) ∧ ClosesAt (depth + tag.value.weight) tags k close := by
  have hcount : ∀ j, depth + openCount ((tag :: tags).take (j + 1)) =
      depth + tag.value.weight + openCount (tags.take j) := by
    intro j
    rw [List.take_succ_cons, openCount_cons]
    omega
  constructor
  · rintro ⟨hstands, hclosing, hzero, hearliest⟩
    refine ⟨?_, hstands, hclosing, by rw [← hcount, hzero], fun j hj other hother hvalue => ?_⟩
    · rintro ⟨hvalue, rfl⟩
      apply hearliest 0 (Nat.succ_pos k) tag rfl hvalue
      rw [hcount, hvalue]
      rfl
    · rw [← hcount]
      exact hearliest (j + 1) (by omega) other hother hvalue
  · rintro ⟨hfirst, hstands, hclosing, hzero, hearliest⟩
    refine ⟨hstands, hclosing, by rw [hcount, hzero], fun j hj other hother hvalue => ?_⟩
    rw [hcount]
    cases j with
    | zero =>
        cases hother
        intro hsum
        rw [hvalue, List.take_zero, openCount_nil] at hsum
        simp only [Tag.weight] at hsum
        exact hfirst ⟨hvalue, by omega⟩
    | succ j => exact hearliest j (by omega) other hother hvalue

theorem exists_cons {tag : Span Tag} :
    (∃ k, ClosesAt depth (tag :: tags) k close) ↔
      if tag.value = .closing ∧ depth = 1 then tag = close
      else ∃ k, ClosesAt (depth + tag.value.weight) tags k close := by
  constructor
  · rintro ⟨k, h⟩
    cases k with
    | zero =>
        obtain ⟨htag, hfirst⟩ := cons_zero.mp h
        rwa [if_pos hfirst]
    | succ k =>
        obtain ⟨hfirst, hlater⟩ := cons_succ.mp h
        rw [if_neg hfirst]
        exact ⟨k, hlater⟩
  · intro h
    split at h
    · rename_i hfirst
      exact ⟨0, cons_zero.mpr ⟨h, hfirst⟩⟩
    · rename_i hfirst
      obtain ⟨k, hlater⟩ := h
      exact ⟨k + 1, cons_succ.mpr ⟨hfirst, hlater⟩⟩

end ClosesAt

/-- The search for a closing tag finds the one that brings the count to zero. -/
theorem closingTag?_eq_some_iff {depth : Nat} (hdepth : 0 < depth) {tags : List (Span Tag)}
    {close : Span Tag} :
    closingTag? depth tags = some close ↔ ∃ k, ClosesAt depth tags k close := by
  induction tags generalizing depth with
  | nil =>
      constructor
      · intro h
        cases h
      · rintro ⟨k, h⟩
        cases h.stands
  | cons tag tags ih =>
      cases hvalue : tag.value with
      | opening body =>
          rw [closingTag?, hvalue, ih (Nat.succ_pos depth), ClosesAt.exists_cons, hvalue]
          simp [Tag.weight]
      | selfClosing body =>
          rw [closingTag?, hvalue, ih hdepth, ClosesAt.exists_cons, hvalue]
          simp [Tag.weight]
      | closing =>
          rw [closingTag?, hvalue, ClosesAt.exists_cons, hvalue]
          by_cases hlast : depth = 1
          · subst hlast
            simp
          · have hmore : ¬depth ≤ 1 := by omega
            have hstep : (depth : Int) + Tag.closing.weight = ((depth - 1 : Nat) : Int) := by
              simp only [Tag.weight]
              omega
            have hother : ¬(Tag.closing = Tag.closing ∧ (depth : Int) = 1) := by omega
            rw [if_neg hother, hstep, ← ih (by omega)]
            simp only [if_neg hmore]

/-! ## Pairs -/

/-- An opening tag with its closing tag, `between` tags further on. -/
structure TagPair (tags : List (Span Tag)) where
  first : Nat
  between : Nat
  opening : Span Tag
  body : Text
  close : Span Tag
  opens : tags[first]? = some opening
  isOpening : opening.value = .opening body
  closes : ClosesAt 1 (tags.drop (first + 1)) between close

namespace TagPair

variable {tags : List (Span Tag)}

/-- The place of the closing tag. -/
def last (p : TagPair tags) : Nat := p.first + 1 + p.between

theorem first_lt_last (p : TagPair tags) : p.first < p.last := by
  rw [last]
  omega

theorem getElem?_last (p : TagPair tags) : tags[p.last]? = some p.close := by
  have h := p.closes.stands
  rwa [List.getElem?_drop] at h

theorem eq_of_first_eq {p q : TagPair tags} (h : p.first = q.first) : p = q := by
  obtain ⟨first, between, opening, body, close, hopens, hopening, hcloses⟩ := p
  obtain ⟨first', between', opening', body', close', hopens', hopening', hcloses'⟩ := q
  obtain rfl : first = first' := h
  obtain rfl : opening = opening' := Option.some_inj.mp (hopens.symm.trans hopens')
  obtain rfl : body = body' := by simpa using hopening.symm.trans hopening'
  obtain rfl : between = between' := hcloses.unique hcloses'
  obtain rfl : close = close' := Option.some_inj.mp (hcloses.stands.symm.trans hcloses'.stands)
  rfl

/-- The count of open tags before a place. -/
def height (tags : List (Span Tag)) (k : Nat) : Int := openCount (tags.take k)

theorem height_add (tags : List (Span Tag)) (first k : Nat) :
    height tags (first + k) = height tags first + openCount ((tags.drop first).take k) := by
  rw [height, List.take_add, openCount_append]
  rfl

theorem height_first_succ (p : TagPair tags) :
    height tags (p.first + 1) = height tags p.first + 1 := by
  rw [height, openCount_take_succ p.opens, p.isOpening]
  rfl

/-- Between the two tags of a pair the count stays above that before it. -/
theorem height_lt (p : TagPair tags) {k : Nat} (hk : p.first < k) (hk' : k ≤ p.last) :
    height tags p.first < height tags k := by
  obtain ⟨j, rfl⟩ := Nat.exists_eq_add_of_lt hk
  have hj : j ≤ p.between := by
    rw [last] at hk'
    omega
  have hpos := p.closes.pos (by decide) hj
  have hadd := height_add tags (p.first + 1) j
  have hfirst := p.height_first_succ
  have hcomm : p.first + j + 1 = p.first + 1 + j := by omega
  rw [hcomm]
  omega

/-- Behind a pair the count is as before it. -/
theorem height_last_succ (p : TagPair tags) : height tags (p.last + 1) = height tags p.first := by
  have hzero := p.closes.zero
  have hadd := height_add tags (p.first + 1) (p.between + 1)
  have hfirst := p.height_first_succ
  rw [last, Nat.add_assoc]
  omega

/-- A pair that begins inside another one ends inside it. -/
theorem nested {p q : TagPair tags} (hfirst : p.first < q.first) (hlast : q.first ≤ p.last) :
    q.last < p.last := by
  refine Nat.not_le.mp fun hle => ?_
  have hbehind := p.height_last_succ
  have hinside := p.height_lt hfirst hlast
  have hend := q.height_last_succ
  have hq : q.first < p.last + 1 := by omega
  rcases Nat.eq_or_lt_of_le hle with heq | hlt
  · rw [← heq] at hend
    omega
  · have := q.height_lt hq (by omega)
    omega

theorem inside_or_behind {p q : TagPair tags} (h : p.first < q.first) :
    q.last < p.last ∨ p.last < q.first := by
  by_cases hlast : q.first ≤ p.last
  · exact .inl (nested h hlast)
  · exact .inr (Nat.not_le.mp hlast)

theorem first_eq_of_last_eq {p q : TagPair tags} (h : p.last = q.last) : p.first = q.first := by
  have hp := p.first_lt_last
  have hq := q.first_lt_last
  rcases Nat.lt_trichotomy p.first q.first with hlt | heq | hlt
  · have := inside_or_behind hlt
    omega
  · exact heq
  · have := inside_or_behind hlt
    omega

/-- An opening tag inside a pair is closed inside it. -/
theorem exists_of_inside (p : TagPair tags) {i : Nat} (hfirst : p.first < i) (hlast : i ≤ p.last)
    {opening : Span Tag} {body : Text} (hopens : tags[i]? = some opening)
    (hopening : opening.value = .opening body) : ∃ q : TagPair tags, q.first = i := by
  have hlevel := p.height_lt hfirst hlast
  have hbehind := p.height_last_succ
  have hstep : height tags (i + 1) = height tags i + 1 := by
    rw [height, openCount_take_succ hopens, hopening]
    rfl
  obtain ⟨m, hm⟩ := Nat.exists_eq_add_of_le (show i + 1 ≤ p.last + 1 by omega)
  have hadd := height_add tags (i + 1) m
  rw [← hm] at hadd
  rcases ClosesAt.pos_or_exists (tags.drop (i + 1)) (show (0 : Int) < 1 by decide) m with
    hpos | ⟨k, close, -, hcloses⟩
  · have := hpos m (Nat.le_refl m)
    omega
  · exact ⟨⟨i, k, opening, body, close, hopens, hopening, hcloses⟩, rfl⟩

/-! ## Places in the text -/

def start (p : TagPair tags) : Nat := p.opening.start

def stop (p : TagPair tags) : Nat := p.close.stop

/-- Whether a pair lies in the stretch that another one takes. -/
def Within (p q : TagPair tags) : Prop := q.start ≤ p.start ∧ p.stop ≤ q.stop

/-- Tags that stand one behind the other, none of them empty. -/
structure InOrder (tags : List (Span Tag)) : Prop where
  apart : tags.Pairwise fun a b => a.stop ≤ b.start
  lt : ∀ tag ∈ tags, tag.start < tag.stop

theorem InOrder.stop_le (h : InOrder tags) {i j : Nat} {a b : Span Tag} (ha : tags[i]? = some a)
    (hb : tags[j]? = some b) (hij : i < j) : a.stop ≤ b.start := by
  obtain ⟨hi, rfl⟩ := List.getElem?_eq_some_iff.mp ha
  obtain ⟨hj, rfl⟩ := List.getElem?_eq_some_iff.mp hb
  exact List.pairwise_iff_getElem.mp h.apart i j hi hj hij

theorem InOrder.places (h : InOrder tags) {i j : Nat} {a b : Span Tag} (ha : tags[i]? = some a)
    (hb : tags[j]? = some b) :
    (a.start ≤ b.start ↔ i ≤ j) ∧ (a.stop ≤ b.stop ↔ i ≤ j) ∧ (a.stop ≤ b.start ↔ i < j) := by
  have hlt := h.lt a (List.mem_of_getElem? ha)
  have hlt' := h.lt b (List.mem_of_getElem? hb)
  rcases Nat.lt_trichotomy i j with hij | rfl | hij
  · have := h.stop_le ha hb hij
    omega
  · cases ha.symm.trans hb
    omega
  · have := h.stop_le hb ha hij
    omega

theorem inOrder_spans (html : Text) : InOrder (spans readTag html) where
  apart := pairwise_place _ _
  lt tag htag := by
    obtain ⟨left, right, -, hstart, hstop, hread⟩ :=
      exists_of_mem_place consumes_readTag [] htag
    obtain ⟨middle, hmiddle⟩ := exists_of_readTag hread
    have hsource : tag.source = '<' :: middle ++ ['>'] := List.append_cancel_right hmiddle
    have hlength : 0 < tag.source.length := by simp [hsource]
    omega

/-- Whether the opening tag names a component. -/
def Names (p : TagPair tags) : Prop := (namedComponent? p.body).isSome

/-- The reference that a pair makes if it names a component. -/
def reference? (html : Text) (p : TagPair tags) : Option Reference :=
  (namedComponent? p.body).map fun (identifier, region) =>
    { form := .around (trim (slice html p.opening.stop p.close.start))
      identifier
      props := attributes .plain region
      start := p.start
      stop := p.stop
      source := slice html p.start p.stop }

theorem reference?_eq (p : TagPair tags) (html : Text) {identifier region : Text}
    (h : namedComponent? p.body = some (identifier, region)) :
    p.reference? html = some
      { form := .around (trim (slice html p.opening.stop p.close.start))
        identifier
        props := attributes .plain region
        start := p.start
        stop := p.stop
        source := slice html p.start p.stop } := by
  rw [reference?, h]
  rfl

theorem exists_reference? (p : TagPair tags) (html : Text) (h : p.Names) :
    ∃ r, p.reference? html = some r ∧ r.start = p.start ∧ r.stop = p.stop := by
  obtain ⟨⟨identifier, region⟩, hname⟩ := Option.isSome_iff_exists.mp h
  exact ⟨_, p.reference?_eq html hname, rfl, rfl⟩

/-- Whether a pair is one of some pairs and lies within no greater one of them. -/
def IsOutermostOf (P : TagPair tags → Prop) (p : TagPair tags) : Prop :=
  P p ∧ ∀ q, P q → p.Within q → q.Within p

/-- Whether a pair names a component and lies within no greater one that does. -/
def IsOutermost (p : TagPair tags) : Prop := IsOutermostOf Names p

/-- The pairs that are left from the tag at `n` on, where the text up to `consumed` is taken. -/
def Remains (n consumed : Nat) (p : TagPair tags) : Prop :=
  p.Names ∧ n ≤ p.first ∧ consumed ≤ p.start

theorem isOutermostOf_congr {P Q : TagPair tags → Prop} (h : ∀ p, P p ↔ Q p) (p : TagPair tags) :
    IsOutermostOf P p ↔ IsOutermostOf Q p := by
  simp only [IsOutermostOf, h]

section InOrder

variable (hinOrder : InOrder tags) {p q : TagPair tags}

include hinOrder

theorem within_iff : p.Within q ↔ q.first ≤ p.first ∧ p.last ≤ q.last := by
  have hstart := (hinOrder.places q.opens p.opens).1
  have hstop := (hinOrder.places p.getElem?_last q.getElem?_last).2.1
  rw [Within, start, start, stop, stop, hstart, hstop]

theorem stop_le_start_iff : p.stop ≤ q.start ↔ p.last < q.first :=
  (hinOrder.places p.getElem?_last q.opens).2.2

theorem start_lt_stop (p : TagPair tags) : p.start < p.stop := by
  have hbetween := hinOrder.stop_le p.opens p.getElem?_last p.first_lt_last
  have hopening := hinOrder.lt _ (List.mem_of_getElem? p.opens)
  have hclose := hinOrder.lt _ (List.mem_of_getElem? p.getElem?_last)
  rw [start, stop]
  omega

theorem within_or_apart (p q : TagPair tags) :
    p.Within q ∨ q.Within p ∨ p.stop ≤ q.start ∨ q.stop ≤ p.start := by
  rw [within_iff hinOrder, within_iff hinOrder, stop_le_start_iff hinOrder,
    stop_le_start_iff hinOrder]
  rcases Nat.lt_trichotomy p.first q.first with hlt | heq | hlt
  · have := inside_or_behind hlt
    omega
  · rw [eq_of_first_eq heq]
    omega
  · have := inside_or_behind hlt
    omega

/-- Every pair that names a component lies within an outermost one. -/
theorem exists_isOutermost (q : TagPair tags) (hq : q.Names) :
    ∃ p : TagPair tags, p.IsOutermost ∧ q.Within p := by
  by_cases h : q.IsOutermost
  · exact ⟨q, h, Nat.le_refl _, Nat.le_refl _⟩
  · have hgreater : ∃ r : TagPair tags, r.Names ∧ q.Within r ∧ ¬r.Within q := by
      simpa [IsOutermost, IsOutermostOf, hq] using h
    obtain ⟨r, hr, hwithin, hnot⟩ := hgreater
    have hplaces := (within_iff hinOrder).mp hwithin
    have hfirst : r.first < q.first := by
      rcases Nat.eq_or_lt_of_le hplaces.1 with heq | hlt
      · exact absurd (eq_of_first_eq heq ▸ hwithin) hnot
      · exact hlt
    obtain ⟨p, hp, hrp⟩ := exists_isOutermost r hr
    exact ⟨p, hp, Nat.le_trans hrp.1 hwithin.1, Nat.le_trans hwithin.2 hrp.2⟩
termination_by q.first

/-- Taking the pair at `n` leaves the outermost ones behind it. -/
theorem isOutermostOf_remains_iff {n consumed : Nat} (hp : p.Names) (hfirst : p.first = n)
    (hconsumed : consumed ≤ p.start) (q : TagPair tags) :
    IsOutermostOf (Remains n consumed) q ↔
      q = p ∨ IsOutermostOf (Remains (n + 1) p.stop) q := by
  have hremains : Remains n consumed p := ⟨hp, by omega, hconsumed⟩
  -- whatever else remains lies within `p` or behind it
  have hother : ∀ r : TagPair tags, n ≤ r.first → r = p ∨ n < r.first ∧
      (r.last < p.last ∨ p.last < r.first) := by
    intro r hr
    rcases Nat.eq_or_lt_of_le hr with heq | hlt
    · exact .inl (eq_of_first_eq (by omega))
    · exact .inr ⟨hlt, inside_or_behind (by omega)⟩
  have hbehind : ∀ r : TagPair tags, Remains (n + 1) p.stop r →
      Remains n consumed r ∧ p.last < r.first := by
    rintro r ⟨hr, hfirst, hstop⟩
    have hstart : p.start ≤ r.start := (hinOrder.places p.opens r.opens).1.mpr (by omega)
    exact ⟨⟨hr, by omega, by omega⟩, (stop_le_start_iff hinOrder).mp hstop⟩
  constructor
  · rintro ⟨⟨hq, hqfirst, hqstart⟩, hmax⟩
    rcases hother q hqfirst with heq | ⟨hlt, hinside | hlater⟩
    · exact .inl heq
    · have hwithin : q.Within p := (within_iff hinOrder).mpr (by omega)
      have hback := (within_iff hinOrder).mp (hmax p hremains hwithin)
      omega
    · refine .inr ⟨⟨hq, hlt, (stop_le_start_iff hinOrder).mpr hlater⟩, fun r hr hwithin => ?_⟩
      exact hmax r (hbehind r hr).1 hwithin
  · rintro (rfl | ⟨hq, hmax⟩)
    · refine ⟨hremains, fun r hr hwithin => ?_⟩
      have hplaces := (within_iff hinOrder).mp hwithin
      have heq : r = q := eq_of_first_eq (by have := hr.2.1; omega)
      exact heq ▸ hwithin
    · obtain ⟨hqremains, hlater⟩ := hbehind q hq
      refine ⟨hqremains, fun r hr hwithin => ?_⟩
      have hplaces := (within_iff hinOrder).mp hwithin
      have hlength := q.first_lt_last
      rcases hother r hr.2.1 with rfl | ⟨hlt, hinside | hbehind'⟩
      · omega
      · omega
      · exact hmax r ⟨hr.1, hlt, (stop_le_start_iff hinOrder).mpr hbehind'⟩ hwithin

end InOrder

/-- Where no pair that names a component is left at `n`, going on behind it leaves the same. -/
theorem isOutermostOf_remains_succ {n consumed : Nat}
    (hnone : ∀ p : TagPair tags, p.Names → p.first = n → ¬consumed ≤ p.start) (p : TagPair tags) :
    IsOutermostOf (Remains (n + 1) consumed) p ↔ IsOutermostOf (Remains n consumed) p := by
  refine isOutermostOf_congr (fun q => ?_) p
  constructor
  · rintro ⟨hq, hfirst, hstart⟩
    exact ⟨hq, by omega, hstart⟩
  · rintro ⟨hq, hfirst, hstart⟩
    rcases Nat.eq_or_lt_of_le hfirst with heq | hlt
    · exact absurd hstart (hnone q hq heq.symm)
    · exact ⟨hq, hlt, hstart⟩

section First

variable {n : Nat} {tag : Span Tag} {rest : List (Span Tag)} (h : tags.drop n = tag :: rest)
include h

theorem getElem?_of_drop : tags[n]? = some tag := by
  have hget : (tags.drop n)[0]? = tags[n + 0]? := List.getElem?_drop
  rw [h] at hget
  exact hget.symm

theorem drop_succ_of_drop : tags.drop (n + 1) = rest := by
  rw [← List.drop_drop, h]
  rfl

variable {p : TagPair tags} (hp : p.first = n)
include hp

theorem opening_of_first : p.opening = tag := by
  have hopens := p.opens
  rw [hp, getElem?_of_drop h] at hopens
  exact (Option.some_inj.mp hopens).symm

theorem closingTag?_of_first : closingTag? 1 rest = some p.close := by
  have hcloses := p.closes
  rw [hp, drop_succ_of_drop h] at hcloses
  exact (closingTag?_eq_some_iff Nat.one_pos).mpr ⟨_, hcloses⟩

end First

theorem exists_of_closingTag? {n : Nat} {tag close : Span Tag} {rest : List (Span Tag)}
    {body : Text} (h : tags.drop n = tag :: rest) (hopening : tag.value = .opening body)
    (hclose : closingTag? 1 rest = some close) :
    ∃ p : TagPair tags, p.first = n ∧ p.opening = tag ∧ p.body = body ∧ p.close = close := by
  obtain ⟨between, hcloses⟩ := (closingTag?_eq_some_iff Nat.one_pos).mp hclose
  rw [← drop_succ_of_drop h] at hcloses
  exact ⟨⟨n, between, tag, body, close, getElem?_of_drop h, hopening, hcloses⟩, rfl, rfl, rfl, rfl⟩

end TagPair

open TagPair

/-- What is found among the tags from place `n` on are the outermost pairs that remain. The
induction is on these tags; a pair that is taken passes over all pairs within it. -/
theorem mem_childReferencesAmong_iff {tags rest : List (Span Tag)} (hinOrder : InOrder tags)
    (html : Text) {n : Nat} (hrest : tags.drop n = rest) (consumed : Nat) (r : Reference) :
    r ∈ childReferencesAmong html consumed rest ↔
      ∃ p : TagPair tags, IsOutermostOf (Remains n consumed) p ∧ p.reference? html = some r := by
  induction rest generalizing n consumed with
  | nil =>
      constructor
      · intro h
        cases h
      · rintro ⟨p, ⟨⟨-, hfirst, -⟩, -⟩, -⟩
        have hlength := (List.getElem?_eq_some_iff.mp p.opens).1
        rw [List.drop_eq_nil_iff] at hrest
        omega
  | cons tag rest ih =>
      have hdrop := drop_succ_of_drop hrest
      have hpass (hnone : ∀ p : TagPair tags, p.Names → p.first = n → ¬consumed ≤ p.start) :
          r ∈ childReferencesAmong html consumed rest ↔ ∃ p : TagPair tags,
            IsOutermostOf (Remains n consumed) p ∧ p.reference? html = some r := by
        rw [ih hdrop]
        simp only [isOutermostOf_remains_succ hnone]
      rw [childReferencesAmong]
      split
      · rename_i hstart
        refine hpass fun p _ hp => ?_
        rw [start, opening_of_first hrest hp]
        omega
      · rename_i hstart
        split
        · rename_i body hbody
          split
          · rename_i identifier region close hname hclose
            obtain ⟨p, hfirst, rfl, rfl, rfl⟩ := exists_of_closingTag? hrest hbody hclose
            have hnames : p.Names := by simp [Names, hname]
            have hstep := isOutermostOf_remains_iff hinOrder hnames hfirst
              (Nat.le_of_not_lt hstart)
            have hreference := p.reference?_eq html hname
            simp only [List.mem_cons, ih hdrop, hstep, or_and_right, exists_or, exists_eq_left,
              hreference, Option.some.injEq, eq_comm (a := r)]
            rfl
          · rename_i hmissing
            refine hpass fun p hnames hp => ?_
            obtain ⟨⟨identifier, region⟩, hname⟩ := Option.isSome_iff_exists.mp hnames
            have hbodies := p.isOpening
            rw [opening_of_first hrest hp, hbody] at hbodies
            obtain rfl : body = p.body := Tag.opening.inj hbodies
            exact absurd (closingTag?_of_first hrest hp) (hmissing identifier region p.close hname)
        · rename_i hvalue
          refine hpass fun p _ hp => ?_
          exact absurd (opening_of_first hrest hp ▸ p.isOpening) (hvalue p.body)

theorem mem_childReferences_iff {html : Text} {r : Reference} :
    r ∈ childReferences html ↔
      ∃ p : TagPair (spans readTag html), p.IsOutermost ∧ p.reference? html = some r := by
  have hall : ∀ p : TagPair (spans readTag html), Remains 0 0 p ↔ p.Names := fun p =>
    ⟨fun h => h.1, fun h => ⟨h, Nat.zero_le _, Nat.zero_le _⟩⟩
  rw [childReferences, mem_childReferencesAmong_iff (inOrder_spans html) html List.drop_zero]
  simp only [isOutermostOf_congr hall, IsOutermost]

theorem slice_of_mem_childReferences {html : Text} {r : Reference} (h : r ∈ childReferences html) :
    slice html r.start r.stop = r.source ∧ r.start ≤ r.stop := by
  obtain ⟨p, -, hr⟩ := mem_childReferences_iff.mp h
  obtain ⟨⟨identifier, region⟩, -, rfl⟩ := Option.map_eq_some_iff.mp hr
  exact ⟨rfl, Nat.le_of_lt (start_lt_stop (inOrder_spans html) p)⟩

theorem pairwise_of_elements {position : Nat} {s : Text} {rs : List Reference}
    (h : Elements position s rs) :
    (∀ r ∈ rs, position ≤ r.start) ∧
      rs.Pairwise fun a b => a.start < b.start ∧ a.stop ≤ b.start := by
  induction h with
  | nil => exact ⟨fun _ hr => (List.not_mem_nil hr).elim, .nil⟩
  | cons before source hstart hstop hname hsource hrest ih =>
      have hpos : 0 < source.length :=
        Nat.lt_of_lt_of_le (Nat.lt_of_lt_of_le Nat.two_pos hsource.two_tags) List.count_le_length
      constructor
      · intro a ha
        rcases List.mem_cons.mp ha with rfl | ha
        · omega
        · have := ih.1 a ha
          omega
      · refine List.pairwise_cons.mpr ⟨fun a ha => ?_, ih.2⟩
        have := ih.1 a ha
        omega

/-- References with children stand one behind the other. -/
theorem pairwise_childReferences (html : Text) :
    (childReferences html).Pairwise fun a b => a.start < b.start ∧ a.stop ≤ b.start :=
  (pairwise_of_elements (elements_childReferences html)).2

/-- An opening tag that is never closed takes nothing from the pairs behind it. -/
theorem exists_childReference_behind {html : Text} {i : Nat} {opening : Span Tag} {body : Text}
    (hopens : (spans readTag html)[i]? = some opening) (hopening : opening.value = .opening body)
    (hunclosed : ∀ p : TagPair (spans readTag html), p.first ≠ i)
    {q : TagPair (spans readTag html)} (hq : q.Names) (hbehind : i < q.first) :
    ∃ r ∈ childReferences html,
      opening.stop ≤ r.start ∧ r.start ≤ q.start ∧ q.stop ≤ r.stop := by
  have hinOrder := inOrder_spans html
  obtain ⟨p, hp, hwithin⟩ := exists_isOutermost hinOrder q hq
  obtain ⟨r, hr, hstart, hstop⟩ := p.exists_reference? html hp.1
  have hplaces := (within_iff hinOrder).mp hwithin
  have hlength := q.first_lt_last
  have hfirst : i < p.first := by
    refine Nat.not_le.mp fun hle => ?_
    have hlt : p.first < i := Nat.lt_of_le_of_ne hle (hunclosed p)
    obtain ⟨u, hu⟩ := p.exists_of_inside hlt (by omega) hopens hopening
    exact hunclosed u hu
  have hbefore : opening.stop ≤ p.start := (hinOrder.places hopens p.opens).2.2.mpr hfirst
  refine ⟨r, mem_childReferences_iff.mpr ⟨p, hp, hr⟩, ?_⟩
  rw [hstart, hstop]
  exact ⟨hbefore, hwithin⟩

/-- Pairs of tags are nested or apart, and neither tag of a pair is one of another pair. The
references with children are the outermost pairs that name a component, in the order of the text
and apart from each other. An opening tag without a closing tag hides no pair behind it. -/
theorem childReferences_outermost (html : Text) :
    (∀ p q : TagPair (spans readTag html),
        (p.Within q ∨ q.Within p ∨ p.stop ≤ q.start ∨ q.stop ≤ p.start) ∧
          (p.first = q.first ↔ p.last = q.last)) ∧
      (childReferences html).Pairwise (fun a b => a.start < b.start ∧ a.stop ≤ b.start) ∧
      (∀ r, r ∈ childReferences html ↔
        ∃ p : TagPair (spans readTag html), p.IsOutermost ∧ p.reference? html = some r) ∧
      ∀ i opening body, (spans readTag html)[i]? = some opening →
        opening.value = .opening body → (∀ p : TagPair (spans readTag html), p.first ≠ i) →
        ∀ q : TagPair (spans readTag html), q.Names → i < q.first →
          ∃ r ∈ childReferences html,
            opening.stop ≤ r.start ∧ r.start ≤ q.start ∧ q.stop ≤ r.stop := by
  refine ⟨fun p q => ⟨within_or_apart (inOrder_spans html) p q, ?_, first_eq_of_last_eq⟩,
    pairwise_childReferences html, fun r => mem_childReferences_iff,
    fun i opening body hopens hopening hunclosed q hq hbehind => ?_⟩
  · intro hfirst
    rw [eq_of_first_eq hfirst]
  · exact exists_childReference_behind hopens hopening hunclosed hq hbehind

/-- The first opening tag is never closed: the only closing tag belongs to the second one. -/
def unclosedPage : Text := "<Component name=\"A\">a<Component name=\"B\">b</Component>"

theorem childReferences_outermost_unclosed :
    ∃ opening body, (spans readTag unclosedPage)[0]? = some opening ∧
      opening.value = .opening body ∧
      (∀ p : TagPair (spans readTag unclosedPage), p.first ≠ 0) ∧
      ∃ q : TagPair (spans readTag unclosedPage), q.Names ∧ 0 < q.first ∧
        ∃ r ∈ childReferences unclosedPage,
          opening.stop ≤ r.start ∧ r.start ≤ q.start ∧ q.stop ≤ r.stop := by
  have hfirst : (spans readTag unclosedPage)[0]?.map (·.value) =
      some (.opening " name=\"A\"") := by decide +kernel
  have hsecond : (spans readTag unclosedPage)[1]?.map (·.value) =
      some (.opening " name=\"B\"") := by decide +kernel
  obtain ⟨opening, hopens, hopening⟩ := Option.map_eq_some_iff.mp hfirst
  obtain ⟨opening', hopens', hopening'⟩ := Option.map_eq_some_iff.mp hsecond
  have hunclosed : ∀ p : TagPair (spans readTag unclosedPage), p.first ≠ 0 := by
    intro p hp
    have hcloses := p.closes
    rw [hp] at hcloses
    have hfound := (closingTag?_eq_some_iff Nat.one_pos).mpr ⟨_, hcloses⟩
    have hnone : (closingTag? 1 ((spans readTag unclosedPage).drop 1)).isNone := by decide +kernel
    rw [hfound] at hnone
    cases hnone
  have hclosed : (closingTag? 1 ((spans readTag unclosedPage).drop 2)).isSome := by decide +kernel
  obtain ⟨close, hclose⟩ := Option.isSome_iff_exists.mp hclosed
  obtain ⟨k, hcloses⟩ := (closingTag?_eq_some_iff Nat.one_pos).mp hclose
  let q : TagPair (spans readTag unclosedPage) :=
    ⟨1, k, opening', _, close, hopens', hopening', hcloses⟩
  have hq : q.Names := by
    show (namedComponent? " name=\"B\"").isSome
    decide
  obtain ⟨-, -, -, hbehind⟩ := childReferences_outermost unclosedPage
  exact ⟨opening, _, hopens, hopening, hunclosed, q, hq, Nat.one_pos,
    hbehind 0 opening _ hopens hopening hunclosed q hq Nat.one_pos⟩

end StaticSite.Markup
