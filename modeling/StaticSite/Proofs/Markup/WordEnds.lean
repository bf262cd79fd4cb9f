import Mathlib.Data.List.Basic
import StaticSite.Proofs.Markup.Reading
import StaticSite.Proofs.Table

/-!
# Names read by their ends

An attribute of a tag around children is read by the word characters at the end of its name, so a
hyphenated name is read as the part behind its last hyphen. A name that ends in a hyphen is not read
at all, and then its value is searched like other text.
-/

namespace StaticSite.Markup

open Text

/-- The word characters at the end of a name. -/
def wordEnd (name : Text) : Text := (name.reverse.takeWhile isWord).reverse

/-- What is before the word characters at the end of a name. -/
def wordLead (name : Text) : Text := (name.reverse.dropWhile isWord).reverse

theorem wordLead_append_wordEnd (name : Text) : wordLead name ++ wordEnd name = name := by
  rw [wordLead, wordEnd, ← List.reverse_append, List.takeWhile_append_dropWhile,
    List.reverse_reverse]

theorem isWord_of_mem_wordEnd {name : Text} {c : Char} (h : c ∈ wordEnd name) : isWord c :=
  List.mem_takeWhile_imp (List.mem_reverse.mp h)

theorem wordEnd_eq_self {name : Text} (h : ∀ c ∈ name, isWord c) : wordEnd name = name := by
  rw [wordEnd, List.takeWhile_eq_self_iff.mpr fun c hc => h c (List.mem_reverse.mp hc),
    List.reverse_reverse]

theorem wordEnd_eq_nil_iff {name : Text} :
    wordEnd name = [] ↔ ∀ c ∈ name.getLast?, isWord c = false := by
  rw [wordEnd, List.reverse_eq_nil_iff, ← List.head?_reverse]
  cases name.reverse with
  | nil => simp
  | cons c s => by_cases hc : isWord c <;> simp [hc]

/-- No word character ends the part before the end of a name. -/
theorem isWord_getLast_wordLead {name : Text} {c : Char} (h : c ∈ (wordLead name).getLast?) :
    isWord c = false := by
  rw [wordLead, List.getLast?_reverse] at h
  have hhead := List.head?_dropWhile_not isWord name.reverse
  rw [Option.mem_def.mp h] at hhead
  simpa using hhead

/-- An attribute of which the name may be hyphenated and the value holds no quote. -/
structure IsQuoted (a : Text × Text) : Prop where
  ne_nil : a.1 ≠ []
  isHyphenWord_name : ∀ c ∈ a.1, isHyphenWord c
  no_quote : '"' ∉ a.2

instance (a : Text × Text) : Decidable (IsQuoted a) :=
  decidable_of_iff (a.1 ≠ [] ∧ (∀ c ∈ a.1, isHyphenWord c) ∧ '"' ∉ a.2)
    ⟨fun h => ⟨h.1, h.2.1, h.2.2⟩, fun h => ⟨h.1, h.2, h.3⟩⟩

/-- Whether the closing quote behind a value would open a value of a name in it. -/
def endsInName (value : Text) : Bool :=
  match value.reverse with
  | '=' :: c :: _ => isWord c
  | _ => false

theorem endsInName_iff {value : Text} :
    endsInName value ↔ ∃ lead c, value = lead ++ [c, '='] ∧ isWord c := by
  constructor
  · intro h
    unfold endsInName at h
    split at h
    · rename_i c lead hvalue
      refine ⟨lead.reverse, c, ?_, h⟩
      rw [← value.reverse_reverse, hvalue]
      simp
    · cases h
  · rintro ⟨lead, c, rfl, hc⟩
    simpa [endsInName] using hc

/-! ## Where no attribute is read -/

/-- No plain attribute begins before a character of the name that is no word character. -/
theorem readAttribute_of_notWord {name : Text} {c : Char} (hmem : c ∈ name) (hc : isWord c = false)
    (hequals : '=' ∉ name) (t : Text) : readAttribute isWord (name ++ '=' :: t) = none := by
  cases hread : readAttribute isWord (name ++ '=' :: t) with
  | none => rfl
  | some r =>
      obtain ⟨-, hword, -, hs⟩ := eq_of_readAttribute hread
      have hfirst : '=' ∉ r.1.1 := notMem_of_all hword (by decide)
      obtain ⟨rfl, -⟩ := eq_of_append_cons hequals hfirst hs
      exact absurd hmem (notMem_of_all hword hc)

/-- A plain attribute that begins in a value begins with a name at the end of the value. -/
theorem readAttribute_value {value : Text} (hquote : '"' ∉ value) (hend : ¬endsInName value)
    {u : Text} (hu : u <:+ value) (t : Text) : readAttribute isWord (u ++ '"' :: t) = none := by
  obtain ⟨skipped, rfl⟩ := hu
  cases hread : readAttribute isWord (u ++ '"' :: t) with
  | none => rfl
  | some r =>
      obtain ⟨hne, hword, -, hs⟩ := eq_of_readAttribute hread
      have hfirst : '"' ∉ r.1.1 ++ ['='] := by
        have hname : '"' ∉ r.1.1 := notMem_of_all hword (by decide)
        simp [hname]
      have hu : '"' ∉ u := fun hc => hquote (List.mem_append_right skipped hc)
      rw [List.append_cons r.1.1] at hs
      obtain ⟨rfl, -⟩ := eq_of_append_cons hu hfirst hs
      refine absurd (endsInName_iff.mpr ?_) hend
      have hname := List.dropLast_append_getLast hne
      refine ⟨skipped ++ r.1.1.dropLast, r.1.1.getLast hne, ?_, hword _ (List.getLast_mem hne)⟩
      calc
        skipped ++ (r.1.1 ++ ['=']) =
            skipped ++ (r.1.1.dropLast ++ [r.1.1.getLast hne] ++ ['=']) := by rw [hname]
        _ = _ := by simp

/-! ## What is read -/

theorem readAll_plain_cons {c : Char} (h : isWord c = false) (t : Text) :
    readAll (readAttribute isWord) (c :: t) = readAll (readAttribute isWord) t :=
  @readAll_attribute_cons .plain c h t

/-- A name is read as the word at its end. -/
theorem readAll_name {name : Text} (hequals : '=' ∉ name) (t : Text) :
    readAll (readAttribute isWord) (name ++ '=' :: t) =
      readAll (readAttribute isWord) (wordEnd name ++ '=' :: t) := by
  have hname := wordLead_append_wordEnd name
  have hform : name ++ '=' :: t = wordLead name ++ (wordEnd name ++ '=' :: t) := by
    rw [← List.append_assoc, hname]
  rw [hform]
  apply readAll_append_of_none
  rintro u hne ⟨skipped, hu⟩
  have hlast : isWord (u.getLast hne) = false := by
    have hmem : u.getLast hne ∈ (wordLead name).getLast? := by
      rw [← hu, List.getLast?_append_of_ne_nil _ hne]
      exact List.getLast?_eq_some_getLast hne
    exact isWord_getLast_wordLead hmem
  have hfree : '=' ∉ u ++ wordEnd name := by
    rw [← hname, ← hu, List.append_assoc] at hequals
    exact fun hc => hequals (List.mem_append_right skipped hc)
  rw [← List.append_assoc]
  exact readAttribute_of_notWord (List.mem_append_left _ (List.getLast_mem hne)) hlast hfree t

section Attribute

variable {a : Text × Text}

theorem IsQuoted.no_equals (h : IsQuoted a) : '=' ∉ a.1 :=
  fun hc => absurd (h.isHyphenWord_name _ hc) (by decide)

/-- What a plain reading makes of an attribute. -/
def endProp? (a : Text × Text) : Option (Text × Text) :=
  if wordEnd a.1 = [] then none else some (wordEnd a.1, a.2)

theorem readAll_quoted (h : IsQuoted a) (hend : wordEnd a.1 = [] → ¬endsInName a.2) (t : Text) :
    readAll (readAttribute isWord) (a.1 ++ "=\"" ++ a.2 ++ "\"" ++ t) =
      (endProp? a).toList ++ readAll (readAttribute isWord) t := by
  have hform : a.1 ++ "=\"" ++ a.2 ++ "\"" ++ t = a.1 ++ '=' :: '"' :: (a.2 ++ '"' :: t) := by
    simp
  rw [hform, readAll_name h.no_equals]
  by_cases hword : wordEnd a.1 = []
  · have hvalue : ∀ u, u ≠ [] → u <:+ a.2 → readAttribute isWord (u ++ '"' :: t) = none :=
      fun u _ hu => readAttribute_value h.no_quote (hend hword) hu t
    rw [endProp?, if_pos hword, hword, List.nil_append, readAll_plain_cons (by decide),
      readAll_plain_cons (by decide), readAll_append_of_none hvalue,
      readAll_plain_cons (by decide)]
    rfl
  · have hread : readAll (readAttribute isWord) (wordEnd a.1 ++ "=\"" ++ a.2 ++ "\"" ++ t) =
        (wordEnd a.1, a.2) :: readAll (readAttribute isWord) t :=
      readAll_attribute_quoted .plain hword (fun _ => isWord_of_mem_wordEnd) h.no_quote t
    rw [endProp?, if_neg hword]
    simpa using hread

theorem readAll_renderAttributes_quoted {as : List (Text × Text)} (h : ∀ a ∈ as, IsQuoted a)
    (hend : ∀ a ∈ as, wordEnd a.1 = [] → ¬endsInName a.2) :
    readAll (readAttribute isWord) (renderAttributes as) = as.filterMap endProp? := by
  induction as with
  | nil => rfl
  | cons a as ih =>
      obtain ⟨ha, has⟩ := List.forall_mem_cons.mp h
      obtain ⟨haend, hasend⟩ := List.forall_mem_cons.mp hend
      rw [renderAttributes_cons, readAll_plain_cons (by decide), readAll_quoted ha haend,
        ih has hasend, List.filterMap_cons]
      cases endProp? a <;> rfl

end Attribute

/-- The attributes whose whole name consists of word characters. -/
def wholeWords (as : List (Text × Text)) : List (Text × Text) := as.filter fun a => a.1.all isWord

theorem isWord_of_no_hyphen {name : Text} (h : ∀ c ∈ name, isHyphenWord c) (hhyphen : '-' ∉ name) :
    ∀ c ∈ name, isWord c := by
  intro c hc
  rcases Bool.or_eq_true_iff.mp (h c hc) with heq | hword
  · exact absurd (eq_of_beq heq ▸ hc) hhyphen
  · exact hword

section Whole

variable {a : Text × Text} {as : List (Text × Text)}

theorem endProp?_of_no_hyphen (h : IsQuoted a) (hhyphen : '-' ∉ a.1) : endProp? a = some a := by
  have hend := wordEnd_eq_self (isWord_of_no_hyphen h.isHyphenWord_name hhyphen)
  rw [endProp?, hend, if_neg h.ne_nil]

/-- Names with a hyphen at their end, if anywhere, are read as a whole or not at all. -/
theorem filterMap_endProp? (h : ∀ a ∈ as, IsQuoted a)
    (hlast : ∀ a ∈ as, '-' ∈ a.1 → a.1.getLast? = some '-') :
    as.filterMap endProp? = wholeWords as := by
  have hhyphen : isWord '-' = false := by decide
  rw [wholeWords, ← List.filterMap_eq_filter]
  refine List.filterMap_congr fun a ha => ?_
  by_cases hmem : '-' ∈ a.1
  · have hend : wordEnd a.1 = [] := by
      rw [wordEnd_eq_nil_iff, hlast a ha hmem]
      simpa using hhyphen
    have hwhole : a.1.all isWord = false :=
      List.all_eq_false.mpr ⟨'-', hmem, by simp [hhyphen]⟩
    rw [endProp?, if_pos hend, Option.guard, if_neg (ne_true_of_eq_false hwhole)]
  · have hwhole : a.1.all isWord :=
      List.all_eq_true.mpr (isWord_of_no_hyphen (h a ha).isHyphenWord_name hmem)
    rw [endProp?_of_no_hyphen (h a ha) hmem, Option.guard, if_pos hwhole]

theorem isMapping_endProps (h : ∀ a ∈ as, IsQuoted a)
    (hend : ∀ a ∈ as, wordEnd a.1 = [] → ¬endsInName a.2) :
    (attributes .plain (renderAttributes as)).IsMapping (as.filterMap endProp?) := by
  have hread : attributes .plain (renderAttributes as) = Table.ofList (as.filterMap endProp?) :=
    congrArg Table.ofList (readAll_renderAttributes_quoted h hend)
  rw [hread]
  exact Table.isMapping_ofList _

/-- Attributes around children are read by the word at the end of their names, each name at its
first place with its last value. So they are read by their whole names, and no hyphenated one is
read, in every choice among them, exactly when no hyphenated name ends in a word. -/
theorem attributes_plain_isMapping (h : ∀ a ∈ as, IsQuoted a)
    (hend : ∀ a ∈ as, wordEnd a.1 = [] → ¬endsInName a.2) :
    (attributes .plain (renderAttributes as)).IsMapping (as.filterMap endProp?) ∧
    ((∀ bs, bs.Sublist as →
        (attributes .plain (renderAttributes bs)).IsMapping (wholeWords bs)) ↔
      ∀ a ∈ as, '-' ∈ a.1 → a.1.getLast? = some '-') := by
  refine ⟨isMapping_endProps h hend, ?_, ?_⟩
  · -- Alone, a hyphenated attribute that ends in a word is read, and it should not be.
    intro hwhole a ha hhyphen
    have hsub : [a].Sublist as := List.singleton_sublist.mpr ha
    have hword : wordEnd a.1 = [] := by
      refine Classical.byContradiction fun hne => ?_
      have hread := isMapping_endProps (fun b hb => h b (hsub.subset hb))
        fun b hb => hend b (hsub.subset hb)
      have hclaimed := (hwhole [a] hsub).names_eq
      have hall : a.1.all isWord = false := List.all_eq_false.mpr ⟨'-', hhyphen, by decide⟩
      rw [hread.names_eq] at hclaimed
      simp [wholeWords, endProp?, hne, hall, List.eraseDups_cons] at hclaimed
    have hne := (h a ha).ne_nil
    have hlast := List.getLast?_eq_some_getLast hne
    have hnot := wordEnd_eq_nil_iff.mp hword _ hlast
    have hchar := (h a ha).isHyphenWord_name _ (List.getLast_mem hne)
    rw [hlast]
    simpa [isHyphenWord, hnot] using hchar
  · intro hlast bs hsub
    have hbs : ∀ b ∈ bs, IsQuoted b := fun b hb => h b (hsub.subset hb)
    rw [← filterMap_endProp? hbs fun b hb => hlast b (hsub.subset hb)]
    exact isMapping_endProps hbs fun b hb => hend b (hsub.subset hb)

end Whole

/-- A name that ends in a hyphen is not read, and its value may look like an attribute. -/
def openNames : List (Text × Text) :=
  [("title", "a=b"), ("data-", "id='x'"), ("título", "y"), ("title", "z")]

theorem attributes_plain_isMapping_openNames :
    (attributes .plain (renderAttributes openNames)).IsMapping
      [("title", "a=b"), ("título", "y"), ("title", "z")] :=
  (attributes_plain_isMapping (show ∀ a ∈ openNames, IsQuoted a by decide +kernel)
    (by decide +kernel)).2.mpr (by decide +kernel) openNames (List.Sublist.refl _)

/-- A hyphenated attribute makes a prop of the end of its name, or takes its place. -/
theorem attributes_plain_reads_ends :
    ¬(attributes .plain (renderAttributes [("data-title", "x")])).IsMapping
        (wholeWords [("data-title", "x")]) ∧
      ¬(attributes .plain (renderAttributes [("title", "Hi"), ("data-title", "x")])).IsMapping
        (wholeWords [("title", "Hi"), ("data-title", "x")]) := by
  constructor
  · intro h
    have hnames := h.names_eq
    revert hnames
    decide +kernel
  · intro h
    have htitle := h.get?_eq "title"
    revert htitle
    decide +kernel

end StaticSite.Markup
