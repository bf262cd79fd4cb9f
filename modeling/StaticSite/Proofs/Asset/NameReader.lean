import Mathlib.Data.List.Infix
import StaticSite.Proofs.Asset.DevScript
import StaticSite.Proofs.Markup.Reading

/-!
# Searching a tag for the attribute that names a file

A search for `href=` or `src=` goes through the raw text of a tag. It stops at every name that ends
in the word, and at a value in which the word, `=` and a quote stand, or which ends in the word and
`=`. Where no value does that, what the search gives is what the attributes offer.
-/

namespace StaticSite.Asset

open Text Markup

/-- A word with `=` behind it, as a search looks for it. -/
structure NameReader where
  /-- What is left behind the word and `=`. -/
  after? : Text → Option Text
  /-- Whether a text is the word, as the search takes it. -/
  fits : Text → Bool
  after?_eq_some_iff : ∀ s rest,
    after? s = some rest ↔ ∃ word, fits word ∧ s = word ++ '=' :: rest
  notMem_of_fits : ∀ word, fits word → ∀ c ∈ [' ', '=', '"', '>'], c ∉ word

/-- The reference of a link is looked for in small letters. -/
def hrefName : NameReader where
  after? := Text.after? "href="
  fits word := word == "href"
  after?_eq_some_iff s rest := by
    rw [Text.after?_eq_some_iff]
    constructor
    · rintro rfl
      exact ⟨"href", by decide, rfl⟩
    · rintro ⟨word, hfits, rfl⟩
      rw [eq_of_beq hfits]
      rfl
  notMem_of_fits word hfits := by
    rw [eq_of_beq hfits]
    decide

theorem isCaseless_equals : isCaseless '=' := by decide +kernel

theorem caseless_and_notMem_src :
    ∀ c ∈ [' ', '=', '"', '>'], isCaseless c ∧ c ∉ "src".toList := by
  decide +kernel

/-- The reference of a script is looked for in any letter case. -/
def srcName : NameReader where
  after? := afterFolded? "src="
  fits word := SameLetters "src" word
  after?_eq_some_iff s rest := by
    have hmark : "src=".toList = "src".toList ++ ['='] := rfl
    have hequals (c : Char) : fold '=' = fold c ↔ c = '=' := by
      have hiff := sameLetter_iff_of_caseless (c := c) isCaseless_equals
      rwa [sameLetter, beq_iff_eq] at hiff
    rw [afterFolded?_eq_some_iff, hmark]
    constructor
    · rintro ⟨written, hsame, rfl⟩
      unfold SameLetters at hsame
      rw [List.map_append] at hsame
      obtain ⟨word, last, rfl, hword, hlast⟩ := List.map_eq_append_iff.mp hsame.symm
      obtain ⟨c, more, rfl, hc, hmore⟩ := List.map_eq_cons_iff.mp hlast
      rw [List.map_eq_nil_iff.mp hmore, (hequals c).mp hc.symm]
      exact ⟨word, decide_eq_true hword.symm, by simp⟩
    · rintro ⟨word, hfits, rfl⟩
      exact ⟨word ++ ['='], SameLetters.append (of_decide_eq_true hfits) rfl, by simp⟩
  notMem_of_fits word hfits c hc := by
    obtain ⟨hcaseless, hsrc⟩ := caseless_and_notMem_src c hc
    exact notMem_of_sameLetters hcaseless hsrc (of_decide_eq_true hfits)

namespace NameReader

variable (r : NameReader)

theorem after?_append_equals {u : Text} (hu : '=' ∉ u) (t : Text) :
    r.after? (u ++ '=' :: t) = if r.fits u then some t else none := by
  cases hafter : r.after? (u ++ '=' :: t) with
  | none =>
      have hfits : ¬r.fits u := by
        intro hfits
        rw [(r.after?_eq_some_iff _ t).mpr ⟨u, hfits, rfl⟩] at hafter
        cases hafter
      rw [if_neg hfits]
  | some rest =>
      obtain ⟨word, hfits, hs⟩ := (r.after?_eq_some_iff _ _).mp hafter
      have hword : '=' ∉ word := r.notMem_of_fits word hfits '=' (by simp)
      obtain ⟨rfl, rfl⟩ := eq_of_append_cons hu hword hs
      rw [if_pos hfits]

/-- The word is not read across a space, a quote or the end of a tag. -/
theorem after?_append_mark {c : Char} (hc : c ∈ [' ', '"', '>']) (u t : Text) :
    r.after? (u ++ c :: t) = (r.after? u).map (· ++ c :: t) := by
  cases halone : r.after? u with
  | some rest =>
      obtain ⟨word, hfits, rfl⟩ := (r.after?_eq_some_iff _ _).mp halone
      exact (r.after?_eq_some_iff _ _).mpr ⟨word, hfits, by simp⟩
  | none =>
      refine Option.eq_none_iff_forall_ne_some.mpr fun rest hafter => ?_
      obtain ⟨word, hfits, hs⟩ := (r.after?_eq_some_iff _ _).mp hafter
      have hmark : ∀ c ∈ [' ', '"', '>'], c ∈ [' ', '=', '"', '>'] ∧ c ≠ '=' := by decide
      have hword : c ∉ word ++ ['='] := by
        simp [r.notMem_of_fits word hfits c (hmark c hc).1, (hmark c hc).2]
      rw [List.append_cons word] at hs
      obtain ⟨more, rfl, -⟩ := exists_of_append_eq hword hs.symm
      rw [(r.after?_eq_some_iff _ more).mpr ⟨word, hfits, by simp⟩] at halone
      cases halone

theorem after?_of_notMem {u : Text} (hu : '=' ∉ u) : r.after? u = none := by
  refine Option.eq_none_iff_forall_ne_some.mpr fun rest hafter => hu ?_
  obtain ⟨word, -, rfl⟩ := (r.after?_eq_some_iff _ _).mp hafter
  simp

theorem after?_mark {c : Char} (hc : c ∈ [' ', '"', '>']) (t : Text) :
    r.after? (c :: t) = none := by
  have hempty : r.after? ([] ++ c :: t) = (r.after? []).map (· ++ c :: t) :=
    r.after?_append_mark hc [] t
  rw [List.nil_append, r.after?_of_notMem List.not_mem_nil] at hempty
  exact hempty

/-! ## What an attribute offers -/

/-- Whether a name ends in the word. -/
def endsIn (name : Text) : Bool := anyTail r.fits name

/-- Whether the word, `=` and a quote stand in a value, the quote perhaps behind it. -/
def opens (value : Text) : Bool :=
  anyTail (fun u => match r.after? u with
    | none => false
    | some rest => rest.head?.all isQuote) value

/-- What a search finds at the name of an attribute. -/
def offer (a : Text × Text) : Option Text :=
  let reference := a.2.takeWhile (!isQuote ·)
  if r.endsIn a.1 && !reference.isEmpty then some reference else none

/-- No value in front of the first offer opens a reference. -/
def clearFirst : List (Text × Text) → Bool
  | [] => true
  | a :: as => (r.offer a).isSome || (!r.opens a.2 && clearFirst as)

/-- No value behind the last offer opens a reference. -/
def clearLast : List (Text × Text) → Bool
  | [] => true
  | a :: as => clearLast as && (!r.opens a.2 || as.any fun b => (r.offer b).isSome)

end NameReader

/-- An attribute as it may stand in a tag: the value holds no quote and no end of a tag. -/
structure IsTagAttribute (a : Text × Text) : Prop where
  name_plain : ∀ c ∈ a.1, c.isAlpha ∨ c = '-'
  value_ne_nil : a.2 ≠ []
  no_quote : '"' ∉ a.2
  no_close : '>' ∉ a.2

instance (a : Text × Text) : Decidable (IsTagAttribute a) :=
  decidable_of_iff
    ((∀ c ∈ a.1, c.isAlpha ∨ c = '-') ∧ a.2 ≠ [] ∧ '"' ∉ a.2 ∧ '>' ∉ a.2)
    ⟨fun h => ⟨h.1, h.2.1, h.2.2.1, h.2.2.2⟩, fun h => ⟨h.1, h.2, h.3, h.4⟩⟩

theorem IsTagAttribute.notMem_name {a : Text × Text} (h : IsTagAttribute a) {c : Char}
    (hc : ¬(c.isAlpha ∨ c = '-')) : c ∉ a.1 :=
  fun hmem => hc (h.name_plain c hmem)

theorem close_notMem_renderAttributes {as : List (Text × Text)} (h : ∀ a ∈ as, IsTagAttribute a) :
    '>' ∉ renderAttributes as := by
  intro hmem
  obtain ⟨a, ha, hmem⟩ := List.mem_flatMap.mp hmem
  have hname := (h a ha).notMem_name (c := '>') (by decide)
  simp [hname, (h a ha).no_close] at hmem

/-! ## Searching the attributes -/

theorem anyTail_eq (p : Text → Bool) (s : Text) : anyTail p s = s.tails.any p := by
  induction s with
  | nil => simp [anyTail]
  | cons c s ih => rw [anyTail, List.tails_cons, List.any_cons, ih]

theorem findSome?_eq_ite {α β : Type} {l : List α} {f : α → Option β} {p : α → Bool} {r : Option β}
    (h : ∀ x ∈ l, f x = if p x then r else none) :
    l.findSome? f = if l.any p then r else none := by
  induction l with
  | nil => rfl
  | cons x l ih =>
      obtain ⟨hx, hl⟩ := List.forall_mem_cons.mp h
      rw [List.findSome?_cons, hx, ih hl, List.any_cons]
      by_cases hp : p x = true
      · simp only [hp, Bool.true_or, if_true]
        cases r <;> simp
      · simp only [eq_false_of_ne_true hp, Bool.false_or, Bool.false_eq_true, if_false]

theorem tails_append_cons (s t : Text) (c : Char) :
    (s ++ c :: t).tails = s.tails.map (· ++ c :: t) ++ t.tails := by
  rw [List.tails_append, List.tails_cons, List.tail_cons]

theorem tails_renderAttributes_cons (a : Text × Text) (as : List (Text × Text)) :
    (renderAttributes (a :: as)).tails =
      (' ' :: a.1).tails.map (· ++ '=' :: '"' :: (a.2 ++ '"' :: renderAttributes as)) ++
        (('"' :: a.2).tails.map (· ++ '"' :: renderAttributes as) ++
          (renderAttributes as).tails) := by
  have hform : renderAttributes (a :: as) =
      (' ' :: a.1) ++ '=' :: (('"' :: a.2) ++ '"' :: renderAttributes as) := by
    rw [renderAttributes_cons]
    simp
  rw [hform, tails_append_cons, tails_append_cons]
  rfl

/-- `read` goes from the opening quote of a value to the next quote, in a tag that ends with
`close`. -/
structure ReadsValue {β : Type} (read : Text → Option β) (wrap : Text → β) (close : Text) :
    Prop where
  of_not_quote : ∀ c s, isQuote c = false → read (c :: s) = none
  of_value : ∀ value more, '"' ∉ value → '>' ∉ value → '>' ∉ more →
    read ('"' :: (value ++ '"' :: (more ++ '>' :: close))) =
      if value.takeWhile (!isQuote ·) = [] then none
      else some (wrap (value.takeWhile (!isQuote ·)))

namespace NameReader

variable (r : NameReader) {β : Type} (read : Text → Option β)

/-- What is read behind the word at the front of a text. -/
def search (s : Text) : Option β := (r.after? s).bind read

theorem search_append_equals {u : Text} (hu : '=' ∉ u) (t : Text) :
    r.search read (u ++ '=' :: t) = if r.fits u then read t else none := by
  rw [search, r.after?_append_equals hu]
  split <;> rfl

section Attribute

variable {read} {wrap : Text → β} {close : Text} (reads : ReadsValue read wrap close)

include reads

theorem search_value {value u : Text} (hopens : r.opens value = false) (hu : u <:+ value)
    (t : Text) : r.search read (u ++ '"' :: t) = none := by
  rw [search, r.after?_append_mark (by simp)]
  cases hafter : r.after? u with
  | none => rfl
  | some rest =>
      have hnot : rest.head?.all isQuote = false := by
        refine eq_false_of_ne_true fun hall => ?_
        have htail : r.opens value = true := anyTail_iff.mpr ⟨u, hu, by rw [hafter]; exact hall⟩
        rw [htail] at hopens
        cases hopens
      cases rest with
      | nil => cases hnot
      | cons c rest => exact reads.of_not_quote c _ hnot

variable {a : Text × Text} {more : Text}

/-- Searched in any order, a name gives what the attribute offers. -/
theorem findSome?_name (ha : IsTagAttribute a) (hmore : '>' ∉ more) {us : List Text}
    (hus : us.Perm (' ' :: a.1).tails) :
    us.findSome? (fun u => r.search read
        (u ++ '=' :: '"' :: (a.2 ++ '"' :: (more ++ '>' :: close)))) =
      (r.offer a).map wrap := by
  have hequals : ∀ u ∈ us, '=' ∉ u := by
    have hname : '=' ∉ ' ' :: a.1 := by simp [ha.notMem_name (c := '=') (by decide)]
    exact fun u hu hmem => hname (((List.mem_tails _ _).mp (hus.mem_iff.mp hu)).subset hmem)
  have hany : us.any r.fits = r.endsIn a.1 := by
    have hspace : r.fits (' ' :: a.1) = false := by
      refine eq_false_of_ne_true fun hfits => ?_
      exact r.notMem_of_fits _ hfits ' ' (by simp) List.mem_cons_self
    rw [hus.any_eq, List.tails_cons, List.any_cons, hspace, Bool.false_or, endsIn, anyTail_eq]
  rw [findSome?_eq_ite fun u hu => r.search_append_equals read (hequals u hu) _, hany,
    reads.of_value _ _ ha.no_quote ha.no_close hmore, offer]
  cases r.endsIn a.1 <;> cases a.2.takeWhile (!isQuote ·) <;> rfl

theorem findSome?_value (hopens : r.opens a.2 = false) {us : List Text}
    (hus : us.Perm ('"' :: a.2).tails) (t : Text) :
    us.findSome? (fun u => r.search read (u ++ '"' :: t)) = none := by
  refine List.findSome?_eq_none_iff.mpr fun u hu => ?_
  rcases List.suffix_cons_iff.mp ((List.mem_tails _ _).mp (hus.mem_iff.mp hu)) with rfl | hu
  · rw [search, List.cons_append, r.after?_mark (by simp)]
    rfl
  · exact r.search_value reads hopens hu t

end Attribute

section Attributes

variable {read} {wrap : Text → β} {close : Text} {as : List (Text × Text)}

theorem search_tag_nil : [[]].findSome? (fun u => r.search read (u ++ '>' :: close)) = none := by
  have hnone : r.search read ('>' :: close) = none := by
    rw [search, r.after?_mark (by simp)]
    rfl
  simp [hnone]

/-- From the front, a search finds what the first attribute that offers something offers. -/
theorem findSome?_tails (reads : ReadsValue read wrap close) (h : ∀ a ∈ as, IsTagAttribute a)
    (hclear : r.clearFirst as) :
    (renderAttributes as).tails.findSome? (fun u => r.search read (u ++ '>' :: close)) =
      (as.findSome? r.offer).map wrap := by
  induction as with
  | nil => exact r.search_tag_nil
  | cons a as ih =>
      obtain ⟨ha, has⟩ := List.forall_mem_cons.mp h
      have hname := r.findSome?_name reads ha (close_notMem_renderAttributes has) (.refl _)
      rw [tails_renderAttributes_cons, List.findSome?_append, List.findSome?_append,
        List.findSome?_map, List.findSome?_map, List.findSome?_cons]
      simp only [Function.comp_def, List.append_assoc, List.cons_append, hname]
      rw [clearFirst, Bool.or_eq_true, Bool.and_eq_true, Bool.not_eq_true'] at hclear
      -- The value of an attribute is searched only if its name offers nothing.
      cases hoffer : r.offer a with
      | some reference => rfl
      | none =>
          obtain ⟨hopens, hclear⟩ := hclear.resolve_left (by simp [hoffer])
          have hvalue := r.findSome?_value reads hopens (.refl _)
            (renderAttributes as ++ '>' :: close)
          rw [hvalue, ih has hclear]
          rfl

/-- From the back, a search finds what the last attribute that offers something offers. -/
theorem findSome?_reverse_tails (reads : ReadsValue read wrap close)
    (h : ∀ a ∈ as, IsTagAttribute a) (hclear : r.clearLast as) :
    (renderAttributes as).tails.reverse.findSome? (fun u => r.search read (u ++ '>' :: close)) =
      (as.reverse.findSome? r.offer).map wrap := by
  induction as with
  | nil => exact r.search_tag_nil
  | cons a as ih =>
      obtain ⟨ha, has⟩ := List.forall_mem_cons.mp h
      rw [clearLast, Bool.and_eq_true, Bool.or_eq_true, Bool.not_eq_true'] at hclear
      have hname := r.findSome?_name reads ha (close_notMem_renderAttributes has)
        (List.reverse_perm _)
      rw [tails_renderAttributes_cons, List.reverse_append, List.reverse_append,
        ← List.map_reverse, ← List.map_reverse, List.append_assoc, List.findSome?_append,
        List.findSome?_append, List.findSome?_map, List.findSome?_map, ih has hclear.1,
        List.reverse_cons, List.findSome?_append]
      simp only [Function.comp_def, List.append_assoc, List.cons_append, hname]
      -- Backwards, a value is searched before its name, but only if nothing behind it is offered.
      cases hrest : as.reverse.findSome? r.offer with
      | some reference => rfl
      | none =>
          have hany : ¬as.any fun b => (r.offer b).isSome := by
            simpa using hrest
          have hvalue := r.findSome?_value reads (hclear.2.resolve_right hany)
            (List.reverse_perm _) (renderAttributes as ++ '>' :: close)
          rw [hvalue]
          simp

end Attributes

end NameReader

end StaticSite.Asset
