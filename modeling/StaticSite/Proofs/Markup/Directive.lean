import StaticSite.Markup.Variant
import StaticSite.Proofs.Files.Suffixes
import StaticSite.Proofs.Table
import StaticSite.Proofs.Text.Trim

/-!
# Variant directives read back

A listing ends at the first place after which, blanks aside, the comment ends. Written entries hold
no such place, so a directive gives back its entries, whatever the blanks between their parts.
-/

namespace StaticSite.Markup

open Text

/-! ## Where a listing ends -/

/-- The shortest listing takes all but the blanks before the end of the comment. -/
theorem readListing_close {c : Char} {s : Text} (hline : '\n' ∉ c :: s)
    (hend : hasPart "-->" s = false) (t : Text) :
    readListing (c :: (s ++ ' ' :: ("-->" ++ t))) = some (c :: trimEnd s, t) := by
  have hspace : isBlank ' ' = true := by decide
  have hdash : dropBlanks ("-->" ++ t) = "-->" ++ t := rfl
  induction s generalizing c with
  | nil =>
      have hc : c ≠ '\n' := fun hc => hline (hc ▸ List.mem_cons_self)
      have hdrop : dropBlanks (' ' :: ("-->" ++ t)) = "-->" ++ t := by
        rw [dropBlanks, List.dropWhile_cons_of_pos hspace]
        exact hdash
      rw [List.nil_append, readListing, if_neg hc, hdrop, after?_append]
      rfl
  | cons d s ih =>
      rw [List.mem_cons, not_or] at hline
      have hc : c ≠ '\n' := Ne.symm hline.1
      -- The comment ends behind `c` if the rest is blank, and otherwise `c` is one more character.
      by_cases hblank : ∀ e ∈ d :: s, isBlank e
      · have hdrop : dropBlanks (d :: s ++ ' ' :: ("-->" ++ t)) = "-->" ++ t := by
          rw [dropBlanks_append_of_blank hblank, dropBlanks, List.dropWhile_cons_of_pos hspace]
          exact hdash
        rw [readListing, if_neg hc, hdrop, after?_append, trimEnd_eq_nil_iff.mpr hblank]
      · have hdrop : dropBlanks (d :: s ++ ' ' :: ("-->" ++ t)) =
            dropBlanks (d :: s) ++ ' ' :: ("-->" ++ t) := by
          have hne := mt dropBlanks_eq_nil_iff.mp hblank
          rw [dropBlanks, List.dropWhile_append, ← dropBlanks, if_neg (by simpa using hne)]
        have hnone : after? "-->" (dropBlanks (d :: s) ++ ' ' :: ("-->" ++ t)) = none := by
          have hmark : ' ' ∉ "-->".toList := by decide
          have hinside := after?_eq_none_of_hasPart hend (List.dropWhile_suffix isBlank)
          rw [after?_append_cons hmark, dropBlanks, hinside]
          rfl
        have htrim : trimEnd (d :: s) = d :: trimEnd s :=
          (trimEnd_cons d s).resolve_left (mt trimEnd_eq_nil_iff.mp hblank)
        rw [hasPart, Bool.or_eq_false_iff] at hend
        rw [readListing, if_neg hc, hdrop, hnone, htrim]
        exact congrArg (Option.map fun r => (c :: r.1, r.2)) (ih hline.2 hend.2)

/-- A directive with a listing that is not blank, on one line, and without an end of a comment. -/
theorem readDirective_append {lead gap listing : Text} (hlead : ∀ c ∈ lead, isBlank c)
    (hgap : ∀ c ∈ gap, isBlank c) (hlisting : ¬∀ c ∈ listing, isBlank c)
    (hline : '\n' ∉ listing) (hend : hasPart "-->" listing = false) (t : Text) :
    readDirective ("<!--" ++ (lead ++ ("variants:" ++ (gap ++ (listing ++ ' ' :: ("-->" ++ t)))))) =
      some (trim listing, t) := by
  obtain ⟨c, s, hcs⟩ := List.exists_cons_of_ne_nil (mt dropBlanks_eq_nil_iff.mp hlisting)
  have hc : isBlank c = false := by
    have hhead := List.head?_dropWhile_not isBlank listing
    rw [← dropBlanks, hcs] at hhead
    simpa using hhead
  have hsuffix : c :: s <:+ listing := hcs ▸ List.dropWhile_suffix isBlank
  have htrim : trim listing = c :: trimEnd s := by
    rw [trim_eq, hcs]
    exact trimEnd_append_cons hc [] s
  have hlisted : dropBlanks (gap ++ (listing ++ ' ' :: ("-->" ++ t))) =
      c :: (s ++ ' ' :: ("-->" ++ t)) := by
    rw [dropBlanks_append_of_blank hgap, dropBlanks, List.dropWhile_append, ← dropBlanks, hcs]
    rfl
  have hopened : dropBlanks (lead ++ ("variants:" ++ (gap ++ (listing ++ ' ' :: ("-->" ++ t))))) =
      "variants:" ++ (gap ++ (listing ++ ' ' :: ("-->" ++ t))) := by
    rw [dropBlanks_append_of_blank hlead]
    rfl
  have hread := readListing_close (fun hmem => hline (hsuffix.subset hmem))
    (hasPart_eq_false_of_suffix hend ((List.suffix_cons c s).trans hsuffix)) t
  unfold readDirective
  rw [after?_append]
  simp only [Option.bind_eq_bind, Option.bind_some, hopened, after?_append]
  generalize gap ++ (listing ++ ' ' :: ("-->" ++ t)) = listed at hlisted
  -- The first listing that is tried leaves out all blanks, and it is found.
  have hdrop : listed.drop (blanks listed).length = dropBlanks listed := by
    calc
      listed.drop (blanks listed).length =
          (blanks listed ++ dropBlanks listed).drop (blanks listed).length := by
        rw [blanks_append_dropBlanks]
      _ = dropBlanks listed := List.drop_left
  rw [List.range_succ, List.reverse_append, List.reverse_singleton, List.singleton_append,
    List.findSome?_cons, hdrop, hlisted, hread, htrim]

/-! ## Entries -/

section Entries

variable {gap : Text}

theorem variantEntry?_blanks_append (h : ∀ c ∈ gap, isBlank c) (entry : Text) :
    variantEntry? (gap ++ entry) = variantEntry? entry := by
  have hne : ∀ c ∈ gap, (c != '=') = true := by
    intro c hc
    exact bne_iff_ne.mpr fun heq => notMem_of_all h (by decide) (heq ▸ hc)
  have hcut : cut '=' (gap ++ entry) = (gap ++ (cut '=' entry).1, (cut '=' entry).2) := by
    simp only [cut, List.takeWhile_append_of_pos hne, List.dropWhile_append_of_pos hne]
  unfold variantEntry?
  simp only [hcut, trim_blanks_append h]

theorem variantEntry?_append_blanks (h : ∀ c ∈ gap, isBlank c) (entry : Text) :
    variantEntry? (entry ++ gap) = variantEntry? entry := by
  unfold variantEntry?
  by_cases hequals : '=' ∈ entry
  · obtain ⟨name, classes, rfl, hname⟩ := List.eq_append_cons_of_mem hequals
    rw [List.append_assoc, List.cons_append]
    simp only [cut_append_cons hname, trim_append_blanks h]
  · have hgap : '=' ∉ gap := notMem_of_all h (by decide)
    have hlonger : '=' ∉ entry ++ gap := by simp [hequals, hgap]
    simp only [cut_of_notMem hequals, cut_of_notMem hlonger, trim_append_blanks h]

/-- The entries of a listing. -/
def listed (listing : Text) : List (Text × Text) := (fields ',' listing).filterMap variantEntry?

theorem listed_blanks_append (h : ∀ c ∈ gap, isBlank c) (listing : Text) :
    listed (gap ++ listing) = listed listing := by
  have hcomma : ',' ∉ gap := notMem_of_all h (by decide)
  obtain ⟨first, rest, hfields, hprepend⟩ := fields_prepend_of_notMem hcomma listing
  rw [listed, listed, hfields, hprepend, List.filterMap_cons, List.filterMap_cons,
    variantEntry?_blanks_append h]

theorem listed_append_blanks (h : ∀ c ∈ gap, isBlank c) (listing : Text) :
    listed (listing ++ gap) = listed listing := by
  have hcomma : ',' ∉ gap := notMem_of_all h (by decide)
  obtain ⟨lead, last, hfields, happend⟩ := fields_append_of_notMem hcomma listing
  rw [listed, listed, hfields, happend, List.filterMap_append, List.filterMap_append,
    List.filterMap_cons, List.filterMap_cons, variantEntry?_append_blanks h]

theorem listed_trim (listing : Text) : listed (trim listing) = listed listing := by
  obtain ⟨before, after, hbefore, hafter, hlisting⟩ := exists_eq_trim listing
  calc
    listed (trim listing) = listed (trim listing ++ after) :=
      (listed_append_blanks hafter _).symm
    _ = listed (before ++ (trim listing ++ after)) := (listed_blanks_append hbefore _).symm
    _ = listed listing := by rw [← hlisting]

end Entries

/-- An entry with the blanks around its parts. -/
structure SpacedVariant where
  name : Text
  classes : Text
  beforeName : Text
  afterName : Text
  beforeClasses : Text
  afterClasses : Text

namespace SpacedVariant

def entry (v : SpacedVariant) : Text × Text := (v.name, v.classes)

def text (v : SpacedVariant) : Text :=
  v.beforeName ++ v.name ++ v.afterName ++ '=' :: (v.beforeClasses ++ v.classes ++ v.afterClasses)

/-- An entry without a name or without classes is written but not kept. -/
def isKept (v : SpacedVariant) : Bool := !(v.name.isEmpty || v.classes.isEmpty)

/-- The blanks keep to the line, and the parts are trimmed and hold no mark that would end them. -/
structure WellFormed (v : SpacedVariant) : Prop where
  trim_name : trim v.name = v.name
  trim_classes : trim v.classes = v.classes
  no_mark_name : ',' ∉ v.name ∧ '=' ∉ v.name ∧ '\n' ∉ v.name
  no_mark_classes : ',' ∉ v.classes ∧ '\n' ∉ v.classes
  no_end_name : hasPart "-->" v.name = false
  no_end_classes : hasPart "-->" v.classes = false
  isBlank_gaps : ∀ c ∈ v.beforeName ++ v.afterName ++ v.beforeClasses ++ v.afterClasses,
    isBlank c ∧ c ≠ '\n'

instance (v : SpacedVariant) : Decidable v.WellFormed :=
  decidable_of_iff (trim v.name = v.name ∧ trim v.classes = v.classes ∧
      (',' ∉ v.name ∧ '=' ∉ v.name ∧ '\n' ∉ v.name) ∧ (',' ∉ v.classes ∧ '\n' ∉ v.classes) ∧
      hasPart "-->" v.name = false ∧ hasPart "-->" v.classes = false ∧
      ∀ c ∈ v.beforeName ++ v.afterName ++ v.beforeClasses ++ v.afterClasses,
        isBlank c ∧ c ≠ '\n')
    ⟨fun h => ⟨h.1, h.2.1, h.2.2.1, h.2.2.2.1, h.2.2.2.2.1, h.2.2.2.2.2.1, h.2.2.2.2.2.2⟩,
      fun h => ⟨h.1, h.2, h.3, h.4, h.5, h.6, h.7⟩⟩

section WellFormed

variable {v : SpacedVariant} (h : v.WellFormed)

include h

theorem WellFormed.isBlank_each : (∀ c ∈ v.beforeName, isBlank c) ∧ (∀ c ∈ v.afterName, isBlank c) ∧
    (∀ c ∈ v.beforeClasses, isBlank c) ∧ ∀ c ∈ v.afterClasses, isBlank c := by
  refine ⟨?_, ?_, ?_, ?_⟩ <;> exact fun c hc => (h.isBlank_gaps c (by simp [hc])).1

theorem WellFormed.gaps_notMem {c : Char} (hc : isBlank c = false) :
    c ∉ v.beforeName ∧ c ∉ v.afterName ∧ c ∉ v.beforeClasses ∧ c ∉ v.afterClasses := by
  obtain ⟨hbefore, hafter, hbefore', hafter'⟩ := h.isBlank_each
  exact ⟨notMem_of_all hbefore hc, notMem_of_all hafter hc, notMem_of_all hbefore' hc,
    notMem_of_all hafter' hc⟩

theorem WellFormed.comma_notMem : ',' ∉ v.text := by
  have hgaps := h.gaps_notMem (c := ',') (by decide)
  simp [text, hgaps, h.no_mark_name.1, h.no_mark_classes.1]

theorem WellFormed.newline_notMem : '\n' ∉ v.text := by
  have hgaps : '\n' ∉ v.beforeName ++ v.afterName ++ v.beforeClasses ++ v.afterClasses :=
    fun hc => (h.isBlank_gaps _ hc).2 rfl
  simp only [List.mem_append, not_or] at hgaps
  simp [text, hgaps, h.no_mark_name.2.2, h.no_mark_classes.2]

/-- What is read of an entry is what was written, whatever the blanks around its parts. -/
theorem WellFormed.variantEntry?_text :
    variantEntry? v.text = if v.isKept then some v.entry else none := by
  have hname : '=' ∉ v.beforeName ++ v.name ++ v.afterName := by
    simp [h.gaps_notMem (c := '=') (by decide), h.no_mark_name.2.1]
  obtain ⟨hbefore, hafter, hbefore', hafter'⟩ := h.isBlank_each
  have htrim : trim (v.beforeName ++ v.name ++ v.afterName) = v.name := by
    rw [trim_append_blanks hafter, trim_blanks_append hbefore, h.trim_name]
  have htrim' : trim (v.beforeClasses ++ v.classes ++ v.afterClasses) = v.classes := by
    rw [trim_append_blanks hafter', trim_blanks_append hbefore', h.trim_classes]
  unfold variantEntry? text
  simp only [cut_append_cons hname, htrim, htrim']
  by_cases hempty : (v.name.isEmpty || v.classes.isEmpty) = true
  · have hkept : ¬v.isKept := by rw [isKept, hempty]; decide
    rw [if_pos hempty, if_neg hkept]
  · have hkept : v.isKept := by rw [isKept, eq_false_of_ne_true hempty]; rfl
    rw [if_neg hempty, if_pos hkept]
    rfl

/-- No end of a comment goes across `=` or a blank. -/
theorem WellFormed.no_end_text : hasPart "-->" v.text = false := by
  have hmark : ∀ c ∈ "-->".toList, isBlank c = false := by decide
  have hapart {gap : Text} (hgap : ∀ c ∈ gap, isBlank c) : ∀ c ∈ gap, c ∉ "-->".toList :=
    fun c hc hmem => absurd (hgap c hc) (by simp [hmark c hmem])
  have hne : "-->".toList ≠ [] := by decide
  obtain ⟨hbefore, hafter, hbefore', hafter'⟩ := h.isBlank_each
  rw [text, hasPart_append_cons hne (by decide), hasPart_append_of_notMem hne (hapart hafter),
    hasPart_prepend_of_notMem hne (hapart hbefore), h.no_end_name,
    hasPart_append_of_notMem hne (hapart hafter'),
    hasPart_prepend_of_notMem hne (hapart hbefore'), h.no_end_classes, Bool.or_false]

end WellFormed

/-- The entries of a directive in one text. -/
def listing (vs : List SpacedVariant) : Text := join [','] (vs.map text)

section Listing

variable {vs : List SpacedVariant} (h : ∀ v ∈ vs, v.WellFormed)

include h

theorem newline_notMem_listing : '\n' ∉ listing vs := by
  intro hmem
  rcases mem_join hmem with hcomma | ⟨part, hpart, hmem⟩
  · revert hcomma
    decide
  · obtain ⟨v, hv, rfl⟩ := List.mem_map.mp hpart
    exact (h v hv).newline_notMem hmem

theorem no_end_listing : hasPart "-->" (listing vs) = false := by
  induction vs with
  | nil => rfl
  | cons v vs ih =>
      obtain ⟨hv, hvs⟩ := List.forall_mem_cons.mp h
      by_cases hne : vs.map text = []
      · rw [listing, List.map_cons, hne]
        exact hv.no_end_text
      · have hcomma : ',' ∉ "-->".toList := by decide
        rw [listing, List.map_cons, join_cons ',' v.text hne,
          hasPart_append_cons (by decide) hcomma, hv.no_end_text]
        exact ih hvs

theorem filterMap_text : (vs.map text).filterMap variantEntry? = (vs.filter isKept).map entry := by
  induction vs with
  | nil => rfl
  | cons v vs ih =>
      obtain ⟨hv, hvs⟩ := List.forall_mem_cons.mp h
      rw [List.map_cons, List.filterMap_cons, hv.variantEntry?_text, ih hvs, List.filter_cons]
      by_cases hkept : v.isKept = true <;> simp [hkept]

theorem listed_listing (hne : vs ≠ []) : listed (listing vs) = (vs.filter isKept).map entry := by
  have hcomma : ∀ part ∈ vs.map text, ',' ∉ part := by
    intro part hpart
    obtain ⟨v, hv, rfl⟩ := List.mem_map.mp hpart
    exact (h v hv).comma_notMem
  rw [listed, listing, fields_join (by simpa using hne) hcomma, filterMap_text h]

omit h in
theorem not_blank_listing (hne : vs ≠ []) : ¬∀ c ∈ listing vs, isBlank c := by
  intro hblank
  obtain ⟨v, vs, rfl⟩ := List.exists_cons_of_ne_nil hne
  have hmem : '=' ∈ listing (v :: vs) :=
    mem_join_of_mem (List.mem_map_of_mem List.mem_cons_self) (by simp [text])
  have hequals := hblank _ hmem
  revert hequals
  decide

end Listing

end SpacedVariant

open SpacedVariant

/-- A directive with any blanks at its start and before its entries. -/
def directive (lead gap : Text) (vs : List SpacedVariant) : Text :=
  "<!--" ++ (lead ++ ("variants:" ++ (gap ++ (listing vs ++ " -->"))))

section Directive

variable {lead gap : Text} {vs : List SpacedVariant}

theorem readDirective_directive (hlead : ∀ c ∈ lead, isBlank c) (hgap : ∀ c ∈ gap, isBlank c)
    (hne : vs ≠ []) (h : ∀ v ∈ vs, v.WellFormed) (t : Text) :
    readDirective (directive lead gap vs ++ t) = some (trim (listing vs), t) := by
  have hread := readDirective_append hlead hgap (not_blank_listing hne) (newline_notMem_listing h)
    (no_end_listing h) t
  unfold directive
  simpa using hread

/-- The first directive of a markup gives back its entries as an ordered mapping, as far as they
have a name and classes. What follows it is not read. -/
theorem variants_directive (hlead : ∀ c ∈ lead, isBlank c) (hgap : ∀ c ∈ gap, isBlank c)
    (hne : vs ≠ []) (h : ∀ v ∈ vs, v.WellFormed) {before : Text}
    (hbefore : hasPart "<!--" before = false) (after : Text) :
    (variants (before ++ (directive lead gap vs ++ after))).IsMapping
      ((vs.filter isKept).map entry) := by
  have hskip : readFirst? readDirective (before ++ (directive lead gap vs ++ after)) =
      readFirst? readDirective (directive lead gap vs ++ after) := by
    refine readFirst?_append_of_none fun u hu hsuffix => ?_
    obtain ⟨t, ht⟩ : ∃ t, directive lead gap vs ++ after = '<' :: t := ⟨_, rfl⟩
    have hmark : '<' ∉ "!--".toList := by decide
    have hnone : after? "<!--" (u ++ '<' :: t) = none :=
      after?_append_of_hasPart hmark hbefore hsuffix hu t
    rw [ht, readDirective, hnone]
    rfl
  have hread := readDirective_directive hlead hgap hne h after
  have hfirst : readFirst? readDirective (directive lead gap vs ++ after) =
      some (trim (listing vs), after) := by
    obtain ⟨c, t, hct⟩ : ∃ c t, directive lead gap vs ++ after = c :: t := ⟨_, _, rfl⟩
    rw [hct] at hread ⊢
    rw [readFirst?, hread, Option.some_or]
  have hlisted : variants (before ++ (directive lead gap vs ++ after)) =
      Table.ofList ((vs.filter isKept).map entry) := by
    rw [variants, hskip, hfirst]
    exact congrArg Table.ofList ((listed_trim _).trans (listed_listing h hne))
  rw [hlisted]
  exact Table.isMapping_ofList _

end Directive

/-- A name given twice, parts that are missing, classes with `=` and with hyphens at the end, and
blanks beyond the space. -/
def trickyVariants : List SpacedVariant :=
  [⟨"ghost", "a=b c", "\t", "", "\u3000", ""⟩, ⟨"", "lost", "", " ", "", "\u00a0"⟩,
    ⟨"wide", "w--", "", "", "", ""⟩, ⟨"empty", "", "", "", "", "  "⟩,
    ⟨"ghost", "late -- >", "\u2003", "\t", "", ""⟩, ⟨"", "", "", "", "", ""⟩,
    ⟨"dash-", "--", "", "", "", ""⟩]

theorem variants_directive_tricky :
    (variants ("<! -- variants: x=y -->" ++
        (directive "\n" "" trickyVariants ++ "<!-- variants: ghost=later -->"))).IsMapping
      [("ghost", "a=b c"), ("wide", "w--"), ("ghost", "late -- >"), ("dash-", "--")] := by
  have hlead : ∀ c ∈ "\n".toList, isBlank c := by decide
  have hne : trickyVariants ≠ [] := List.cons_ne_nil _ _
  exact variants_directive hlead (by simp) hne (by decide) (by decide) _

end StaticSite.Markup
