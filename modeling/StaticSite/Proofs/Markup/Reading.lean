import Mathlib.Data.List.TakeWhile
import StaticSite.Proofs.Markup.Rebuild

/-!
# Reading tags that were written

What the recognisers of tags read at the front of a written tag, whatever follows it. In ordinary
text they read nothing.
-/

namespace StaticSite.Markup

open Text

theorem isHyphenWord_of_isBlank {c : Char} (h : isBlank c) : isHyphenWord c = false := by
  have key : ∀ r ∈ blankRanges, ∀ n ∈ List.range' r.1 (r.2 + 1 - r.1),
      isHyphenWord (Char.ofNat n) = false := by
    decide +kernel
  simp only [isBlank, inRanges, List.any_eq_true, Bool.and_eq_true, decide_eq_true_eq] at h
  obtain ⟨r, hr, hlow, hhigh⟩ := h
  have hmem : c.toNat ∈ List.range' r.1 (r.2 + 1 - r.1) := by
    rw [List.mem_range'_1]
    omega
  have hword := key r hr c.toNat hmem
  rwa [Char.ofNat_toNat] at hword

/-! ## Attributes -/

theorem renderAttributes_cons (a : Text × Text) (attributes : List (Text × Text)) :
    renderAttributes (a :: attributes) =
      ' ' :: (a.1 ++ "=\"" ++ a.2 ++ "\"" ++ renderAttributes attributes) := by
  simp [renderAttributes]

theorem notMem_renderAttributes {c : Char} (hc : c ∈ ['<', '>']) {style : NameStyle}
    {attributes : List (Text × Text)} (h : ∀ a ∈ attributes, IsAttribute style a) :
    c ∉ renderAttributes attributes := by
  have hmark : c ∈ tagMarks := List.mem_append_left ['"'] hc
  have hother : c ≠ ' ' ∧ c ≠ '=' ∧ c ≠ '"' := by
    revert c
    decide
  intro hmem
  obtain ⟨a, ha, hmem⟩ := List.mem_flatMap.mp hmem
  have hname := (bounds_of_mem_tagMarks (h a ha).isHoleName hmark).notMem
  have hvalue : c ∉ a.2 := fun hc => (h a ha).plain _ hc hmark
  simp [hname, hvalue, hother] at hmem

section Attribute

variable {style : NameStyle} {a : Text × Text}

theorem NameStyle.isHyphenWord_of_inName {style : NameStyle} {c : Char} (h : style.inName c) :
    isHyphenWord c := by
  cases style with
  | plain => exact isHyphenWord_of_isWord h
  | hyphenated => exact h

theorem NameStyle.inName_eq_false {style : NameStyle} {c : Char} (h : isHyphenWord c = false) :
    style.inName c = false := by
  cases hc : style.inName c with
  | false => rfl
  | true => exact absurd (isHyphenWord_of_inName hc) (by simp [h])

/-- An attribute that was read stands at the front of the text. -/
theorem eq_of_readAttribute {inName : Char → Bool} {s rest : Text}
    (h : readAttribute inName s = some (a, rest)) :
    a.1 ≠ [] ∧ (∀ c ∈ a.1, inName c) ∧ '"' ∉ a.2 ∧
      s = a.1 ++ '=' :: '"' :: (a.2 ++ '"' :: rest) := by
  simp only [readAttribute, Option.bind_eq_bind] at h
  split at h
  · cases h
  · rename_i hname
    obtain ⟨opened, hopen, h⟩ := Option.bind_eq_some_iff.mp h
    obtain ⟨⟨value, more⟩, hcut, h⟩ := Option.bind_eq_some_iff.mp h
    cases h
    obtain ⟨rfl, hvalue⟩ := cut?_eq_some_iff.mp hcut
    refine ⟨by simpa using hname, fun _ => List.mem_takeWhile_imp, hvalue, ?_⟩
    calc
      s = s.takeWhile inName ++ s.dropWhile inName := List.takeWhile_append_dropWhile.symm
      _ = _ := by
        rw [after?_eq_some_iff.mp hopen]
        rfl

/-- No attribute begins with a character that stands in no name. -/
theorem readAttribute_cons_of_not_inName {c : Char} (h : style.inName c = false) (t : Text) :
    readAttribute style.inName (c :: t) = none := by
  simp [readAttribute, h]

theorem readAttribute_quoted {name value : Text} (hne : name ≠ [])
    (hname : ∀ c ∈ name, style.inName c) (hvalue : '"' ∉ value) (t : Text) :
    readAttribute style.inName (name ++ "=\"" ++ value ++ "\"" ++ t) =
      some ((name, value), t) := by
  have hequals : style.inName '=' = false := NameStyle.inName_eq_false (by decide)
  have hcut : cut? '"' (value ++ '"' :: t) = some (value, t) :=
    cut?_eq_some_iff.mpr ⟨rfl, hvalue⟩
  have hrest : ∀ c ∈ ("=\"" ++ (value ++ ("\"" ++ t)) : Text).head?, style.inName c = false := by
    simpa using hequals
  obtain ⟨htake, hdrop⟩ := takeWhile_append_of_head hname hrest
  rw [List.append_assoc, List.append_assoc, List.append_assoc]
  unfold readAttribute
  rw [htake, hdrop]
  simp [hne, after?, hcut]

theorem readAll_attribute_cons {c : Char} (h : style.inName c = false) (t : Text) :
    readAll (readAttribute style.inName) (c :: t) = readAll (readAttribute style.inName) t := by
  simp [readAll, split_cons_of_none (readAttribute_cons_of_not_inName h t)]

theorem readAll_attribute_quoted (style : NameStyle) {name value : Text} (hne : name ≠ [])
    (hname : ∀ c ∈ name, style.inName c) (hvalue : '"' ∉ value) (t : Text) :
    readAll (readAttribute style.inName) (name ++ "=\"" ++ value ++ "\"" ++ t) =
      (name, value) :: readAll (readAttribute style.inName) t := by
  have hsource : (name ++ "=\"" ++ value ++ "\"" : Text) ≠ [] := by simp
  rw [readAll, split_of_some hsource (readAttribute_quoted hne hname hvalue t)]
  rfl

theorem IsAttribute.notMem_quote (h : IsAttribute style a) : '"' ∉ a.2 :=
  fun hc => h.plain _ hc (by simp [tagMarks])

theorem readAll_attribute_append (h : IsAttribute style a) (t : Text) :
    readAll (readAttribute style.inName) (a.1 ++ "=\"" ++ a.2 ++ "\"" ++ t) =
      a :: readAll (readAttribute style.inName) t :=
  readAll_attribute_quoted style h.ne_nil h.inName h.notMem_quote t

theorem readAll_renderAttributes {attributes : List (Text × Text)}
    (h : ∀ a ∈ attributes, IsAttribute style a) (t : Text) :
    readAll (readAttribute style.inName) (renderAttributes attributes ++ t) =
      attributes ++ readAll (readAttribute style.inName) t := by
  induction attributes with
  | nil => rfl
  | cons a attributes ih =>
      have htail := ih fun b hb => h b (by simp [hb])
      have hspace : style.inName ' ' = false := NameStyle.inName_eq_false (by decide)
      rw [renderAttributes_cons, List.cons_append, readAll_attribute_cons hspace,
        List.append_assoc, readAll_attribute_append (h a (by simp)), htail, List.cons_append]

end Attribute

theorem attributes_renderAttributes {style : NameStyle} {as : List (Text × Text)}
    (h : ∀ a ∈ as, IsAttribute style a) :
    attributes style (renderAttributes as) = Table.ofList as := by
  have hread := readAll_renderAttributes h []
  rw [List.append_nil] at hread
  rw [attributes, hread]
  simp [readAll, split, splitAfter]

/-! ## Tags -/

theorem readTag_cons_of_ne {c : Char} (hc : c ≠ '<') (s : Text) : readTag (c :: s) = none := by
  unfold readTag
  simp [after?, Ne.symm hc]

theorem readSelfClosing_cons_of_ne {c : Char} (hc : c ≠ '<') (s : Text) :
    readSelfClosing (c :: s) = none := by
  unfold readSelfClosing
  simp [after?, Ne.symm hc]

/-- After the lead of another tag, the words of component tags do not fit. -/
theorem IsLead.after?_eq_none {lead : Text} (h : IsLead lead) (s : Text) :
    after? "Component" (lead ++ s) = none ∧ after? "/Component" (lead ++ s) = none := by
  have hletter : ∀ {c : Char}, isOtherLetter c → 'C' ≠ c ∧ '/' ≠ c := by
    rintro c hc
    constructor
    · rintro rfl
      exact absurd hc (by decide)
    · rintro rfl
      exact absurd hc (by decide)
  cases h with
  | bang => simp [after?]
  | letter hc => simp [after?, hletter hc]
  | slash hc => simp [after?, hletter hc]

theorem after?_of_opensOther {s : Text} (h : opensOther s) :
    after? "<Component" ('<' :: s) = none ∧ after? "</Component" ('<' :: s) = none := by
  obtain ⟨lead, rest, rfl, hlead⟩ := opensOther_iff.mp h
  simpa [after?] using hlead.after?_eq_none rest

theorem opensOther_append {s : Text} (h : opensOther s) (t : Text) : opensOther (s ++ t) := by
  obtain ⟨lead, rest, rfl, hlead⟩ := opensOther_iff.mp h
  rw [List.append_assoc]
  exact hlead.opensOther_append _

theorem readTag_of_isOrdinary {s : Text} (hne : s ≠ []) (h : isOrdinary s) (t : Text) :
    readTag (s ++ t) = none := by
  cases s with
  | nil => exact absurd rfl hne
  | cons c s =>
      by_cases hc : c = '<'
      · subst hc
        have hopen := opensOther_append ((isOrdinary_cons.mp h).1 rfl) t
        obtain ⟨hleft, hright⟩ := after?_of_opensOther hopen
        unfold readTag
        rw [List.cons_append, hleft, hright]
        rfl
      · exact readTag_cons_of_ne hc _

theorem readSelfClosing_of_isOrdinary {s : Text} (hne : s ≠ []) (h : isOrdinary s) (t : Text) :
    readSelfClosing (s ++ t) = none := by
  cases s with
  | nil => exact absurd rfl hne
  | cons c s =>
      by_cases hc : c = '<'
      · subst hc
        have hopen := opensOther_append ((isOrdinary_cons.mp h).1 rfl) t
        unfold readSelfClosing
        rw [List.cons_append, (after?_of_opensOther hopen).1]
        rfl
      · exact readSelfClosing_cons_of_ne hc _

/-- What stands between the word of a self-closing tag and its `>`. -/
def selfClosingBody (attributes : List (Text × Text)) : Text := renderAttributes attributes ++ " /"

/-- What stands between the word of an opening tag and its `>`. -/
def openingBody (identifier : Text) (attributes : List (Text × Text)) : Text :=
  " name=\"" ++ identifier ++ "\"" ++ renderAttributes attributes

theorem renderSelfClosing_append (attributes : List (Text × Text)) (t : Text) :
    renderSelfClosing attributes ++ t =
      "<Component" ++ (selfClosingBody attributes ++ '>' :: t) := by
  unfold renderSelfClosing selfClosingBody
  simp

theorem renderOpening_append (identifier : Text) (attributes : List (Text × Text)) (t : Text) :
    renderOpening identifier attributes ++ t =
      "<Component" ++ (openingBody identifier attributes ++ '>' :: t) := by
  unfold renderOpening openingBody
  simp

theorem openingBody_eq (identifier : Text) (attributes : List (Text × Text)) :
    openingBody identifier attributes =
      ' ' :: ("name=\"" ++ (identifier ++ '"' :: renderAttributes attributes)) := by
  unfold openingBody
  simp

theorem readTag_component {body : Text} (hbody : '>' ∉ body)
    (hhead : (body.head?.map isWord).getD false = false) (hne : body ≠ []) (t : Text) :
    readTag ("<Component" ++ (body ++ '>' :: t)) =
      some (if body.getLast? = some '/' then .selfClosing body else .opening body, t) := by
  have hclosing : after? "</Component" ("<Component" ++ (body ++ '>' :: t)) = none := rfl
  have hcut : cut? '>' (body ++ '>' :: t) = some (body, t) := cut?_eq_some_iff.mpr ⟨rfl, hbody⟩
  have hfirst : (body ++ '>' :: t).head? = body.head? := by
    cases body with
    | nil => exact absurd rfl hne
    | cons c body => rfl
  unfold readTag
  rw [hclosing, after?_append]
  simp only [Option.bind_eq_bind, Option.bind_some, hfirst, hhead, hcut]
  rfl

theorem getLast?_renderAttributes (before : Text) (attributes : List (Text × Text)) :
    (before ++ '"' :: renderAttributes attributes).getLast? = some '"' := by
  induction attributes generalizing before with
  | nil => simp [renderAttributes]
  | cons a attributes ih =>
      have htail := ih (before ++ '"' :: ' ' :: (a.1 ++ "=\"" ++ a.2))
      rw [renderAttributes_cons]
      simpa using htail

theorem head?_selfClosingBody (attributes : List (Text × Text)) :
    (selfClosingBody attributes).head? = some ' ' := by
  cases attributes with
  | nil => rfl
  | cons a attributes => rfl

theorem readTag_renderSelfClosing {as : List (Text × Text)}
    (h : ∀ a ∈ as, IsAttribute .hyphenated a) (t : Text) :
    readTag (renderSelfClosing as ++ t) = some (.selfClosing (selfClosingBody as), t) := by
  have hbody : '>' ∉ selfClosingBody as := by
    simp [selfClosingBody, notMem_renderAttributes (c := '>') (by simp) h]
  have hlast : (selfClosingBody as).getLast? = some '/' := by simp [selfClosingBody]
  rw [renderSelfClosing_append, readTag_component hbody, if_pos hlast]
  · rw [head?_selfClosingBody]
    decide
  · simp [selfClosingBody]

theorem readTag_renderOpening {i : Text} (hi : IsIdentifier i) {as : List (Text × Text)}
    (h : ∀ a ∈ as, IsAttribute .plain a) (t : Text) :
    readTag (renderOpening i as ++ t) = some (.opening (openingBody i as), t) := by
  have hmark : '>' ∉ i := fun hc => hi.plain _ hc (by simp [tagMarks])
  have hbody : '>' ∉ openingBody i as := by
    rw [openingBody_eq]
    simp [notMem_renderAttributes (c := '>') (by simp) h, hmark]
  have hlast : (openingBody i as).getLast? ≠ some '/' := by
    rw [openingBody_eq, ← List.cons_append, ← List.append_assoc, getLast?_renderAttributes]
    decide
  rw [renderOpening_append, readTag_component hbody, if_neg hlast]
  · rw [openingBody_eq]
    rfl
  · simp [openingBody_eq]

theorem readTag_renderClosing (t : Text) : readTag (renderClosing ++ t) = some (.closing, t) := by
  rfl

theorem namedComponent?_openingBody {i : Text} (hi : IsIdentifier i) (as : List (Text × Text)) :
    namedComponent? (openingBody i as) = some (i, renderAttributes as) := by
  have hquote : '"' ∉ i := fun hc => hi.plain _ hc (by simp [tagMarks])
  have hcut : cut? '"' (i ++ '"' :: renderAttributes as) = some (i, renderAttributes as) :=
    cut?_eq_some_iff.mpr ⟨rfl, hquote⟩
  have hblank : isBlank ' ' = true := by decide
  have hdrop : dropBlanks (openingBody i as) = "name=\"" ++ (i ++ '"' :: renderAttributes as) := by
    rw [openingBody_eq, dropBlanks, List.dropWhile_cons_of_pos hblank]
    rfl
  have hblanks : (blanks (openingBody i as)).isEmpty = false := by
    rw [openingBody_eq, blanks, List.takeWhile_cons_of_pos hblank]
    rfl
  unfold namedComponent?
  rw [hblanks, hdrop, after?_append]
  simp [hcut, hi.ne_nil]

section SelfClosing

/-- What stands before the slash of a tag may be anything without a `>`. -/
theorem cut?_slash {body : Text} (hbody : '>' ∉ body) (t : Text) :
    cut? '>' (body ++ '/' :: '>' :: t) = some (body ++ ['/'], t) :=
  cut?_eq_some_iff.mpr ⟨by simp, by simp [hbody]⟩

theorem readSelfClosing_component {body : Text} (hne : body ≠ []) (hbody : '>' ∉ body) (t : Text) :
    readSelfClosing ("<Component" ++ (body ++ '/' :: '>' :: t)) = some ((), t) := by
  have hlength : ¬(body ++ ['/']).length < 2 := by
    have hpos := List.length_pos_iff.mpr hne
    rw [List.length_append, List.length_singleton]
    omega
  unfold readSelfClosing
  rw [after?_append]
  simp only [Option.bind_eq_bind, Option.bind_some, cut?_slash hbody, if_neg hlength,
    List.getLast?_concat]
  rfl

theorem readAttributeRegion_component {gap region : Text} (hgap : gap ≠ [])
    (hblank : ∀ c ∈ gap, isBlank c) (hne : region ≠ [])
    (hhead : ∀ c ∈ region.head?, isBlank c = false) (hbody : '>' ∉ gap ++ region) (t : Text) :
    readAttributeRegion ("<Component" ++ (gap ++ region ++ '/' :: '>' :: t)) =
      some (region, t) := by
  obtain ⟨hblanks, hdrop⟩ := takeWhile_append_of_head hblank hhead
  have hlength : ¬gap.length < 1 := by
    have hpos := List.length_pos_iff.mpr hgap
    omega
  unfold readAttributeRegion
  rw [after?_append]
  simp only [Option.bind_eq_bind, Option.bind_some, cut?_slash hbody, List.getLast?_concat,
    List.dropLast_concat, blanks, dropBlanks, hblanks, hdrop]
  simp [hlength, hne]

/-- An attribute as it is written in a self-closing tag, with the blanks before it. -/
structure SpacedAttribute where
  gap : Text
  name : Text
  value : Text

namespace SpacedAttribute

def entry (a : SpacedAttribute) : Text × Text := (a.name, a.value)

def text (a : SpacedAttribute) : Text := a.gap ++ (a.name ++ "=\"" ++ a.value ++ "\"")

structure WellFormed (a : SpacedAttribute) : Prop where
  gap_ne_nil : a.gap ≠ []
  isBlank_gap : ∀ c ∈ a.gap, isBlank c
  name_ne_nil : a.name ≠ []
  isHyphenWord_name : ∀ c ∈ a.name, isHyphenWord c
  no_quote : '"' ∉ a.value
  no_close : '>' ∉ a.value

instance (a : SpacedAttribute) : Decidable a.WellFormed :=
  decidable_of_iff (a.gap ≠ [] ∧ (∀ c ∈ a.gap, isBlank c) ∧ a.name ≠ [] ∧
      (∀ c ∈ a.name, isHyphenWord c) ∧ '"' ∉ a.value ∧ '>' ∉ a.value)
    ⟨fun h => ⟨h.1, h.2.1, h.2.2.1, h.2.2.2.1, h.2.2.2.2.1, h.2.2.2.2.2⟩,
      fun h => ⟨h.1, h.2, h.3, h.4, h.5, h.6⟩⟩

end SpacedAttribute

/-- A self-closing tag with any blanks between its attributes and before its end. -/
def spacedTag (as : List SpacedAttribute) (last : Text) : Text :=
  "<Component" ++ (as.flatMap SpacedAttribute.text ++ last ++ "/>")

theorem inName_eq_false_of_isBlank {c : Char} (h : isBlank c) (style : NameStyle) :
    style.inName c = false :=
  NameStyle.inName_eq_false (isHyphenWord_of_isBlank h)

theorem isBlank_eq_false_of_isHyphenWord {c : Char} (h : isHyphenWord c) : isBlank c = false := by
  cases hb : isBlank c with
  | false => rfl
  | true => exact absurd h (by simp [isHyphenWord_of_isBlank hb])

theorem readAll_attribute_blanks (style : NameStyle) {gap : Text} (h : ∀ c ∈ gap, isBlank c)
    (t : Text) :
    readAll (readAttribute style.inName) (gap ++ t) = readAll (readAttribute style.inName) t := by
  induction gap with
  | nil => rfl
  | cons c gap ih =>
      obtain ⟨hc, hgap⟩ := List.forall_mem_cons.mp h
      rw [List.cons_append, readAll_attribute_cons (inName_eq_false_of_isBlank hc style), ih hgap]

namespace SpacedAttribute

variable {a : SpacedAttribute} {as : List SpacedAttribute}

theorem WellFormed.notMem_text (h : a.WellFormed) : '>' ∉ a.text := by
  have hgap : '>' ∉ a.gap := fun hc => absurd (h.isBlank_gap _ hc) (by decide)
  have hname : '>' ∉ a.name := fun hc => absurd (h.isHyphenWord_name _ hc) (by decide)
  simp [text, hgap, hname, h.no_close]

theorem notMem_texts (h : ∀ a ∈ as, a.WellFormed) : '>' ∉ as.flatMap text := by
  intro hmem
  obtain ⟨a, ha, hmem⟩ := List.mem_flatMap.mp hmem
  exact (h a ha).notMem_text hmem

theorem readAll_text (h : a.WellFormed) (t : Text) :
    readAll (readAttribute NameStyle.hyphenated.inName) (a.text ++ t) =
      a.entry :: readAll (readAttribute NameStyle.hyphenated.inName) t := by
  rw [text, List.append_assoc, readAll_attribute_blanks _ h.isBlank_gap]
  exact readAll_attribute_quoted .hyphenated h.name_ne_nil h.isHyphenWord_name h.no_quote t

theorem readAll_texts (h : ∀ a ∈ as, a.WellFormed) (t : Text) :
    readAll (readAttribute NameStyle.hyphenated.inName) (as.flatMap text ++ t) =
      as.map entry ++ readAll (readAttribute NameStyle.hyphenated.inName) t := by
  induction as with
  | nil => rfl
  | cons a as ih =>
      obtain ⟨ha, has⟩ := List.forall_mem_cons.mp h
      rw [List.flatMap_cons, List.append_assoc, readAll_text ha, ih has, List.map_cons,
        List.cons_append]

end SpacedAttribute

open SpacedAttribute in
/-- A written tag is read with its attributes, whatever the blanks between them. -/
theorem selfClosingAttributes?_spacedTag {as : List SpacedAttribute} (hne : as ≠ [])
    (h : ∀ a ∈ as, a.WellFormed) {last : Text} (hlast : ∀ c ∈ last, isBlank c) :
    selfClosingAttributes? (spacedTag as last) = some (Table.ofList (as.map entry)) := by
  have hend : readAll (readAttribute NameStyle.hyphenated.inName) last = [] := by
    have hblanks := readAll_attribute_blanks .hyphenated hlast []
    rwa [List.append_nil] at hblanks
  have hclose : '>' ∉ as.flatMap text ++ last := by
    have hnone : '>' ∉ last := fun hc => absurd (hlast _ hc) (by decide)
    simp [notMem_texts h, hnone]
  cases as with
  | nil => exact absurd rfl hne
  | cons a as =>
      obtain ⟨ha, has⟩ := List.forall_mem_cons.mp h
      have hregion : a.text ++ (as.flatMap text ++ last) =
          a.gap ++ (a.name ++ "=\"" ++ a.value ++ "\"" ++ (as.flatMap text ++ last)) := by
        rw [text, List.append_assoc]
      have hform : spacedTag (a :: as) last = "<Component" ++ (a.gap ++
          (a.name ++ "=\"" ++ a.value ++ "\"" ++ (as.flatMap text ++ last)) ++
            '/' :: '>' :: []) := by
        rw [← hregion]
        unfold spacedTag
        simp
      have hhead : ∀ c ∈ (a.name ++ "=\"" ++ a.value ++ "\"" ++
          (as.flatMap text ++ last)).head?, isBlank c = false := by
        obtain ⟨c, name, hname⟩ := List.exists_cons_of_ne_nil ha.name_ne_nil
        have hc := isBlank_eq_false_of_isHyphenWord (ha.isHyphenWord_name c (by simp [hname]))
        simpa [hname] using hc
      have hread := readAttributeRegion_component ha.gap_ne_nil ha.isBlank_gap (by simp) hhead
        (by rwa [← hregion, ← List.append_assoc]) []
      have hattributes : attributes .hyphenated
          (a.name ++ "=\"" ++ a.value ++ "\"" ++ (as.flatMap text ++ last)) =
            Table.ofList ((a :: as).map entry) := by
        have hfirst := readAll_attribute_quoted .hyphenated ha.name_ne_nil ha.isHyphenWord_name
          ha.no_quote (as.flatMap text ++ last)
        rw [attributes, hfirst, readAll_texts has, hend, List.append_nil]
        rfl
      obtain ⟨c, t, hct⟩ : ∃ c t, spacedTag (a :: as) last = c :: t := ⟨_, _, rfl⟩
      rw [← hform, hct] at hread
      rw [selfClosingAttributes?, hct, readFirst?, hread, Option.some_or, Option.map_some]
      exact congrArg some hattributes

theorem spacedTag_append (as : List SpacedAttribute) (last t : Text) :
    spacedTag as last ++ t =
      "<Component" ++ (as.flatMap SpacedAttribute.text ++ last ++ '/' :: '>' :: t) := by
  unfold spacedTag
  simp

theorem readSelfClosing_spacedTag {as : List SpacedAttribute} (hne : as ≠ [])
    (h : ∀ a ∈ as, a.WellFormed) {last : Text} (hlast : ∀ c ∈ last, isBlank c) (t : Text) :
    readSelfClosing (spacedTag as last ++ t) = some ((), t) := by
  have hnone : '>' ∉ last := fun hc => absurd (hlast _ hc) (by decide)
  have hbody : as.flatMap SpacedAttribute.text ++ last ≠ [] := by
    cases as with
    | nil => exact absurd rfl hne
    | cons a as => simp [SpacedAttribute.text]
  rw [spacedTag_append]
  exact readSelfClosing_component hbody (by simp [SpacedAttribute.notMem_texts h, hnone]) t

/-! ### Tags of a document -/

variable {as : List (Text × Text)}

def SpacedAttribute.ofEntry (a : Text × Text) : SpacedAttribute := ⟨[' '], a.1, a.2⟩

theorem IsAttribute.wellFormed_ofEntry {a : Text × Text} (h : IsAttribute .hyphenated a) :
    (SpacedAttribute.ofEntry a).WellFormed where
  gap_ne_nil := by simp [SpacedAttribute.ofEntry]
  isBlank_gap := by
    intro c hc
    cases List.mem_singleton.mp hc
    decide
  name_ne_nil := h.ne_nil
  isHyphenWord_name := h.inName
  no_quote := h.notMem_quote
  no_close hc := h.plain _ hc (by simp [tagMarks])

theorem renderSelfClosing_eq_spacedTag (as : List (Text × Text)) :
    renderSelfClosing as = spacedTag (as.map SpacedAttribute.ofEntry) [' '] := by
  have hattributes : (as.map SpacedAttribute.ofEntry).flatMap SpacedAttribute.text =
      renderAttributes as := by
    induction as with
    | nil => rfl
    | cons a as ih =>
        rw [List.map_cons, List.flatMap_cons, ih, renderAttributes_cons]
        rfl
  unfold renderSelfClosing spacedTag
  rw [hattributes]
  simp

theorem wellFormed_map_ofEntry (h : ∀ a ∈ as, IsAttribute .hyphenated a) :
    ∀ a ∈ as.map SpacedAttribute.ofEntry, a.WellFormed := by
  intro a ha
  obtain ⟨e, he, rfl⟩ := List.mem_map.mp ha
  exact (h e he).wellFormed_ofEntry

theorem readSelfClosing_renderSelfClosing (h : ∀ a ∈ as, IsAttribute .hyphenated a) (t : Text) :
    readSelfClosing (renderSelfClosing as ++ t) = some ((), t) := by
  have hbody : '>' ∉ renderAttributes as ++ [' '] := by
    simp [notMem_renderAttributes (c := '>') (by simp) h]
  have hform : renderSelfClosing as ++ t =
      "<Component" ++ (renderAttributes as ++ [' '] ++ '/' :: '>' :: t) := by
    unfold renderSelfClosing
    simp
  rw [hform]
  exact readSelfClosing_component (by simp) hbody t

theorem selfClosingAttributes?_renderSelfClosing (hne : as ≠ [])
    (h : ∀ a ∈ as, IsAttribute .hyphenated a) :
    selfClosingAttributes? (renderSelfClosing as) = some (Table.ofList as) := by
  have hspace : ∀ c ∈ [' '], isBlank c := by decide
  have hread := selfClosingAttributes?_spacedTag (by simpa using hne) (wellFormed_map_ofEntry h)
    hspace
  rw [renderSelfClosing_eq_spacedTag, hread, List.map_map]
  exact congrArg (fun es => some (Table.ofList es)) (List.map_id as)

end SelfClosing

end StaticSite.Markup
