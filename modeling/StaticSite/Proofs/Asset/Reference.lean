import StaticSite.Proofs.Asset.NameReader

/-!
# The file that a tag names

A stylesheet link is inlined from the first attribute of which the name ends in `href`, a script
without content from the last one of which the name ends in `src`. In a link the name is seen in
small letters only. Where no other name comes in between, the reference is the value of the
attribute that has the name.
-/

namespace StaticSite.Asset

open Text Markup

/-- A link with attributes in double quotes. -/
def linkTag (as : List (Text × Text)) : Text := "<link" ++ (renderAttributes as ++ ">")

def IsStylesheet (as : List (Text × Text)) : Prop :=
  ∃ a ∈ as, SameLetters "rel" a.1 ∧ SameLetters "stylesheet" a.2

instance (as : List (Text × Text)) : Decidable (IsStylesheet as) :=
  inferInstanceAs (Decidable (∃ a ∈ as, SameLetters "rel" a.1 ∧ SameLetters "stylesheet" a.2))

/-- The attribute with this name, in any letter case. -/
def named? (name : Text) (as : List (Text × Text)) : Option (Text × Text) :=
  as.find? fun a => SameLetters name a.1

/-! ## Reading the value -/

theorem readQuotedValue_value (value t : Text) :
    readQuotedValue ('"' :: (value ++ '"' :: t)) =
      if value.takeWhile (!isQuote ·) = [] then none
      else some (value.takeWhile (!isQuote ·),
        (value.dropWhile (!isQuote ·) ++ ['"']).tail ++ t) := by
  have hquote : (!isQuote '"') = false := by decide
  rw [readQuotedValue, takeWhile_append_cons hquote, dropWhile_append_cons hquote]
  cases value.takeWhile (!isQuote ·) <;> cases value.dropWhile (!isQuote ·) <;> simp [hquote]

theorem readQuotedValue_of_not_quote {c : Char} (hc : isQuote c = false) (s : Text) :
    readQuotedValue (c :: s) = none := by
  rw [readQuotedValue, hc]
  rfl

theorem readsValue_link : ReadsValue (fun s => (readQuotedValue s).map (·.1)) id [] where
  of_not_quote c s hc := by rw [readQuotedValue_of_not_quote hc, Option.map_none]
  of_value value more _ _ _ := by
    rw [readQuotedValue_value]
    split <;> rfl

theorem readsValue_script (after : Text) :
    ReadsValue readScriptValue (fun reference => (reference, after)) ("</script>" ++ after) where
  of_not_quote c s hc := by
    rw [readScriptValue, readQuotedValue_of_not_quote hc]
    rfl
  of_value value more _ hvalue hmore := by
    have hclose : '>' ∉ (value.dropWhile (!isQuote ·) ++ ['"']).tail ++ more := by
      intro hmem
      rcases List.mem_append.mp hmem with hmem | hmem
      · have hvalue : '>' ∉ value.dropWhile (!isQuote ·) ++ ['"'] := by
          have hdrop : '>' ∉ value.dropWhile (!isQuote ·) :=
            fun hmem => hvalue ((List.dropWhile_suffix _).subset hmem)
          simp [hdrop]
        exact hvalue (List.mem_of_mem_tail hmem)
      · exact hmore hmem
    have hend : afterFolded? "</script>" ("</script>" ++ after) = some after :=
      afterFolded?_append _ _
    rw [readScriptValue, readQuotedValue_value]
    split
    · rfl
    · simp only [Option.bind_eq_bind, Option.bind_some, ← List.append_assoc,
        cut?_eq_some_iff.mpr ⟨rfl, hclose⟩, hend]
      rfl

/-! ## Reading the tag -/

theorem readFirst?_eq {α : Type} (read : Recogniser α) (s : Text) :
    readFirst? read s = s.tails.findSome? read := by
  induction s with
  | nil => simp [readFirst?]
  | cons c s ih =>
      rw [readFirst?, ih, List.tails_cons, List.findSome?_cons]
      cases read (c :: s) <;> rfl

theorem startsStylesheet_attribute {a : Text × Text} (hname : SameLetters "rel" a.1)
    (hvalue : SameLetters "stylesheet" a.2) (t : Text) :
    startsStylesheet (a.1 ++ '=' :: '"' :: (a.2 ++ '"' :: t)) := by
  have hrel : afterFolded? "rel=" (a.1 ++ '=' :: '"' :: (a.2 ++ '"' :: t)) =
      some ('"' :: (a.2 ++ '"' :: t)) :=
    afterFolded?_eq_some_iff.mpr ⟨a.1 ++ ['='], hname.append (u := ['=']) rfl, by simp⟩
  have hkind : afterFolded? "stylesheet" (a.2 ++ '"' :: t) = some ('"' :: t) :=
    afterFolded?_eq_some_iff.mpr ⟨a.2, hvalue, rfl⟩
  rw [startsStylesheet, hrel]
  simp only [hkind]
  decide

section Link

variable {as : List (Text × Text)} (h : ∀ a ∈ as, IsTagAttribute a)

include h

omit h in
theorem exists_head_tag (close : Text) : ∃ c t, c ∈ [' ', '"', '>'] ∧
    renderAttributes as ++ '>' :: close = c :: t := by
  cases as with
  | nil => exact ⟨'>', close, by simp, rfl⟩
  | cons a as => exact ⟨' ', _, by simp, rfl⟩

theorem href?_linkTag (hclear : hrefName.clearFirst as) :
    href? (linkTag as) = as.findSome? hrefName.offer := by
  have hread : (fun u => (readHref u).map (·.1)) =
      hrefName.search fun s => (readQuotedValue s).map (·.1) := by
    funext u
    exact Option.map_bind
  have hskip : readFirst? readHref (linkTag as) =
      readFirst? readHref (renderAttributes as ++ ['>']) := by
    obtain ⟨c, t, hc, htag⟩ := @exists_head_tag as []
    refine readFirst?_append_of_none fun u _ hu => ?_
    have hequals : '=' ∉ u := fun hmem => absurd (hu.subset hmem) (by decide)
    have hnone : hrefName.after? (u ++ c :: t) = none := by
      rw [hrefName.after?_append_mark hc, hrefName.after?_of_notMem hequals]
      rfl
    have hform : renderAttributes as ++ ">" = c :: t := htag
    rw [hform]
    exact congrArg (Option.bind · readQuotedValue) hnone
  have hlast : ([] : Text).tails.findSome? readHref = none := rfl
  rw [href?, hskip, readFirst?_eq, tails_append_cons, List.findSome?_append, hlast,
    Option.or_none, List.findSome?_map, List.map_findSome?]
  have hsearch := hrefName.findSome?_tails readsValue_link h hclear
  rw [Option.map_id] at hsearch
  rw [← hread] at hsearch
  exact hsearch

theorem readStylesheetLink_linkTag (hrel : IsStylesheet as) (t : Text) :
    readStylesheetLink (linkTag as ++ t) = some ((), t) := by
  have hopened : afterFolded? "<link" (linkTag as ++ t) =
      some (renderAttributes as ++ '>' :: t) := by
    have hform : linkTag as ++ t = "<link" ++ (renderAttributes as ++ '>' :: t) := by
      unfold linkTag
      simp
    rw [hform]
    exact afterFolded?_append _ _
  have hcut : cut? '>' (renderAttributes as ++ '>' :: t) = some (renderAttributes as, t) :=
    cut?_eq_some_iff.mpr ⟨rfl, close_notMem_renderAttributes h⟩
  have hstyle : anyTail startsStylesheet ((renderAttributes as).drop 1) := by
    obtain ⟨a, ha, hname, hvalue⟩ := hrel
    obtain ⟨before, after, rfl⟩ := List.append_of_mem ha
    refine anyTail_iff.mpr ⟨_, ?_, startsStylesheet_attribute hname hvalue (renderAttributes after)⟩
    have hform : renderAttributes (before ++ a :: after) = renderAttributes before ++
        ' ' :: (a.1 ++ '=' :: '"' :: (a.2 ++ '"' :: renderAttributes after)) := by
      rw [renderAttributes, List.flatMap_append, ← renderAttributes, ← renderAttributes,
        renderAttributes_cons]
      simp
    rw [hform]
    cases renderAttributes before with
    | nil => exact List.suffix_refl _
    | cons c s => exact (List.suffix_cons ' ' _).trans (List.suffix_append s _)
  simp only [readStylesheetLink, hopened, Option.bind_eq_bind, Option.bind_some, hcut, hstyle]
  rfl

end Link

theorem tailsFrom_length (s : Text) : tailsFrom s.length s = s.tails.reverse := by
  have hdrops : (List.range (s.length + 1)).map (s.drop ·) = s.tails := by
    induction s with
    | nil => rfl
    | cons c s ih =>
        rw [List.length_cons, List.range_succ_eq_map, List.map_cons, List.map_map, List.tails_cons,
          ← ih]
        rfl
  rw [tailsFrom, List.map_reverse, hdrops]

section Script

variable {as : List (Text × Text)} (h : ∀ a ∈ as, IsTagAttribute a)

include h

theorem readScript_attributes (hclear : srcName.clearLast as) (after : Text) :
    readScript (scriptTag (renderAttributes as) ++ after) =
      (as.reverse.findSome? srcName.offer).map fun reference => (reference, after) := by
  have hsearch := srcName.findSome?_reverse_tails (readsValue_script after) h hclear
  have hwhole : srcName.search readScriptValue
      (renderAttributes as ++ '>' :: ("</script>" ++ after)) = none := by
    obtain ⟨c, t, hc, htag⟩ := @exists_head_tag as ("</script>" ++ after)
    rw [htag, NameReader.search, srcName.after?_mark hc]
    rfl
  have htails : (renderAttributes as).tails =
      renderAttributes as :: (renderAttributes as).tails.tail := by
    cases renderAttributes as <;> rfl
  rw [htails, List.reverse_cons, List.findSome?_append, List.findSome?_singleton, hwhole,
    Option.or_none] at hsearch
  rw [readScript_scriptTag_eq (close_notMem_renderAttributes h), tailsFrom_length,
    List.dropLast_reverse]
  exact hsearch

end Script

theorem readScript_in_tag {attrs close u : Text}
    (h : ∀ v, v <:+ attrs → readScriptEnd (v ++ '>' :: close) = none) (hclose : '>' ∉ attrs)
    (hu : u <:+ attrs) : readScript (u ++ '>' :: close) = none := by
  have hopen := @afterFolded?_append_cons '>' "<script" isCaseless_close (by decide) u close
  cases hopened : afterFolded? "<script" u with
  | none =>
      rw [hopened] at hopen
      rw [readScript, hopen]
      rfl
  | some inner =>
      have hinner := (suffix_of_afterFolded? hopened).trans hu
      rw [hopened] at hopen
      simp only [readScript, hopen, Option.map_some, Option.bind_eq_bind, Option.bind_some]
      rw [takeWhile_close fun hmem => hclose (hinner.subset hmem),
        tailsFrom_append (Nat.le_refl _), ← List.map_dropLast, List.findSome?_map,
        List.findSome?_eq_none_iff]
      intro v hv
      exact h v ((suffix_of_mem_tailsFrom ((List.dropLast_sublist _).subset hv)).trans hinner)

/-! ## Replacing the tag -/

section Replaced

variable {α : Type} {read : Recogniser α} (write : α → Text → Engine Text)

theorem replaceM_cons_of_none {c : Char} {s : Text} (h : read (c :: s) = none) :
    replaceM read write (c :: s) = (c :: ·) <$> replaceM read write s := by
  simp [replaceM, split_cons_of_none h]

theorem replaceM_append_of_none {s t : Text}
    (h : ∀ u, u ≠ [] → u <:+ s → read (u ++ t) = none) :
    replaceM read write (s ++ t) = (s ++ ·) <$> replaceM read write t := by
  induction s with
  | nil => simp
  | cons c s ih =>
      have hs : read (c :: (s ++ t)) = none := h (c :: s) (by simp) (List.suffix_refl _)
      rw [List.cons_append, replaceM_cons_of_none write hs,
        ih fun u hu hus => h u hu (hus.trans (List.suffix_cons c s)), Functor.map_map]
      rfl

theorem replaceM_of_some {source rest : Text} {a : α} (hne : source ≠ [])
    (h : read (source ++ rest) = some (a, rest)) :
    replaceM read write (source ++ rest) =
      write a source >>= fun block => (block ++ ·) <$> replaceM read write rest := by
  simp [replaceM, split_of_some hne h]

end Replaced

theorem replaceM_closing (write : Text → Text → Engine Text) (after : Text) :
    replaceM readScript write ("</script>" ++ after) =
      (("</script>" : Text) ++ ·) <$> replaceM readScript write after := by
  have hlast := opensWith_readScript.eq_none (s := "/script>") (by decide) after
  have hclosing : readScript ('<' :: ("/script>" ++ after)) = none :=
    readScript_slash ("script>" ++ after)
  have hform : "</script>" ++ after = '<' :: ("/script>" ++ after) := rfl
  rw [hform, replaceM_cons_of_none write hclosing, replaceM_append_of_none write hlast,
    Functor.map_map]
  rfl

/-- A script tag at no place of which a reference is read is passed over as a whole. -/
theorem replaceM_scriptTag {attrs after : Text} (hclose : '>' ∉ attrs)
    (h : ∀ v, v <:+ attrs → readScriptEnd (v ++ '>' :: ("</script>" ++ after)) = none)
    (write : Text → Text → Engine Text) :
    replaceM readScript write (scriptTag attrs ++ after) =
      (scriptTag attrs ++ ·) <$> replaceM readScript write after := by
  have hform (t : Text) : scriptTag attrs ++ t =
      '<' :: ("script" ++ (attrs ++ '>' :: ("</script>" ++ t))) := scriptTag_append attrs
  have hopen : readScript (scriptTag attrs ++ after) = none := by
    rw [readScript_scriptTag_eq hclose, List.findSome?_eq_none_iff]
    intro v hv
    exact h v (suffix_of_mem_tailsFrom ((List.dropLast_sublist _).subset hv))
  have hname := opensWith_readScript.eq_none (s := "script") (by decide)
    (attrs ++ '>' :: ("</script>" ++ after))
  have hattrs (u : Text) (_ : u ≠ []) (hu : u <:+ attrs) := readScript_in_tag h hclose hu
  have hend : readScript ('>' :: ("</script>" ++ after)) = none := opensWith_readScript _ (by simp)
  rw [hform] at hopen ⊢
  rw [replaceM_cons_of_none write hopen, replaceM_append_of_none write hname,
    replaceM_append_of_none write hattrs, replaceM_cons_of_none write hend, replaceM_closing]
  simp only [hform, Functor.map_map]

/-- What becomes of a tag with this reference. Without one, the tag is kept and no file is looked
at. -/
def inlineNamed (candidates : Text → List Path) (element : Text → Text) (passes : Text → Bool)
    (tag : Text) : Option Text → Engine Text
  | none => pure tag
  | some reference =>
      if passes reference then pure tag
      else return ((← read? reference (candidates reference)).map element).getD tag

theorem inlineLink_eq (roots : Roots) (tag : Text) :
    inlineLink roots tag =
      inlineNamed roots.stylesheetCandidates styleElement isExternal tag (href? tag) := by
  unfold inlineLink
  cases href? tag <;> rfl

/-- References to other hosts and to the client of a development server are left alone. -/
def passesScript (markers : List Text) (reference : Text) : Bool :=
  isExternal reference || markers.any (Text.hasPart · reference)

section Page

variable {as : List (Text × Text)} (h : ∀ a ∈ as, IsTagAttribute a) {before : Text}
  (hbefore : '<' ∉ before) (after : Text) (roots : Roots)

include h hbefore

theorem inlineStylesheets_linkTag (hrel : IsStylesheet as) (hclear : hrefName.clearFirst as) :
    inlineStylesheets roots (before ++ (linkTag as ++ after)) = (do
      let block ← inlineNamed roots.stylesheetCandidates styleElement isExternal (linkTag as)
        (as.findSome? hrefName.offer)
      let rest ← inlineStylesheets roots after
      return before ++ (block ++ rest)) := by
  have hread := readStylesheetLink_linkTag h hrel after
  have hne : linkTag as ≠ [] := List.append_ne_nil_of_left_ne_nil (by decide) _
  unfold inlineStylesheets
  rw [replaceM_append_of_none _ (opensWith_readStylesheetLink.eq_none hbefore _),
    replaceM_of_some _ hne hread, inlineLink_eq, href?_linkTag h hclear]
  simp

theorem inlineScripts_scriptTag (markers : List Text) (hclear : srcName.clearLast as) :
    inlineScripts roots markers (before ++ (scriptTag (renderAttributes as) ++ after)) = (do
      let block ← inlineNamed roots.scriptCandidates scriptElement (passesScript markers)
        (scriptTag (renderAttributes as)) (as.reverse.findSome? srcName.offer)
      let rest ← inlineScripts roots markers after
      return before ++ (block ++ rest)) := by
  have hread := readScript_attributes h hclear after
  have hne : scriptTag (renderAttributes as) ≠ [] := by
    rw [scriptTag_eq_cons]
    exact List.cons_ne_nil _ _
  unfold inlineScripts
  rw [replaceM_append_of_none _ (opensWith_readScript.eq_none hbefore _)]
  cases hoffer : as.reverse.findSome? srcName.offer with
  | some reference =>
      rw [hoffer, Option.map_some] at hread
      rw [replaceM_of_some _ hne hread]
      simp [inlineNamed, inlineScript, passesScript]
  | none =>
      -- A script tag within a value is not read either, as its attributes are an end of these.
      have hsearch := srcName.findSome?_reverse_tails (readsValue_script after) h hclear
      rw [hoffer, Option.map_none, List.findSome?_eq_none_iff] at hsearch
      have hnowhere : ∀ v, v <:+ renderAttributes as →
          readScriptEnd (v ++ '>' :: ("</script>" ++ after)) = none :=
        fun v hv => hsearch v (List.mem_reverse.mpr ((List.mem_tails _ _).mpr hv))
      rw [replaceM_scriptTag (close_notMem_renderAttributes h) hnowhere]
      simp [inlineNamed]

end Page

/-- What the attributes offer first is the value of the attribute that offers it, unless a quote of
the other kind ends it. -/
theorem findSome?_offer {r : NameReader} {as : List (Text × Text)} {found : Option (Text × Text)}
    (h : ∀ a ∈ as, IsTagAttribute a) (hfind : (as.find? fun a => (r.offer a).isSome) = found)
    (hquote : ∀ a ∈ found, '\x27' ∉ a.2) : as.findSome? r.offer = found.map (·.2) := by
  subst hfind
  induction as with
  | nil => rfl
  | cons a as ih =>
      obtain ⟨ha, has⟩ := List.forall_mem_cons.mp h
      rw [List.findSome?_cons]
      cases hoffer : r.offer a with
      | none =>
          simp only [List.find?_cons, hoffer, Option.isSome_none] at hquote ⊢
          exact ih has hquote
      | some reference =>
          simp only [List.find?_cons, hoffer, Option.isSome_some] at hquote ⊢
          have hrun : a.2.takeWhile (!isQuote ·) = a.2 := by
            refine List.takeWhile_eq_self_iff.mpr fun c hc => ?_
            have hdouble : c ≠ '"' := fun heq => ha.no_quote (heq ▸ hc)
            have hsingle : c ≠ '\x27' := fun heq => hquote a rfl (heq ▸ hc)
            simp [isQuote, hdouble, hsingle]
          rw [NameReader.offer, hrun] at hoffer
          split at hoffer
          · exact hoffer.symm
          · cases hoffer

/-- A link is inlined from the first value that its attributes offer and a script from the last
one, the rest of the page as without the tag. That is the value of the attribute named `href` or
`src`, if no other attribute offers one before it and the value holds no quote of the other kind.
Without an offer no file is looked at. -/
theorem inlined_reference {as : List (Text × Text)} (h : ∀ a ∈ as, IsTagAttribute a)
    {before : Text} (hbefore : '<' ∉ before) (after : Text) (roots : Roots) (markers : List Text) :
    (IsStylesheet as → hrefName.clearFirst as →
      inlineStylesheets roots (before ++ (linkTag as ++ after)) = (do
        let block ← inlineNamed roots.stylesheetCandidates styleElement isExternal (linkTag as)
          (as.findSome? hrefName.offer)
        let rest ← inlineStylesheets roots after
        return before ++ (block ++ rest)) ∧
      ((as.find? fun a => (hrefName.offer a).isSome) = named? "href" as →
        (∀ a ∈ named? "href" as, '\x27' ∉ a.2) →
        as.findSome? hrefName.offer = (named? "href" as).map (·.2))) ∧
    (srcName.clearLast as →
      inlineScripts roots markers (before ++ (scriptTag (renderAttributes as) ++ after)) = (do
        let block ← inlineNamed roots.scriptCandidates scriptElement (passesScript markers)
          (scriptTag (renderAttributes as)) (as.reverse.findSome? srcName.offer)
        let rest ← inlineScripts roots markers after
        return before ++ (block ++ rest)) ∧
      ((as.reverse.find? fun a => (srcName.offer a).isSome) = named? "src" as →
        (∀ a ∈ named? "src" as, '\x27' ∉ a.2) →
        as.reverse.findSome? srcName.offer = (named? "src" as).map (·.2))) := by
  refine ⟨fun hrel hclear => ⟨?_, findSome?_offer h⟩, fun hclear => ⟨?_, findSome?_offer ?_⟩⟩
  · exact inlineStylesheets_linkTag h hbefore after roots hrel hclear
  · exact inlineScripts_scriptTag h hbefore after roots markers hclear
  · simpa using h

/-- A link with its name behind others, and with what looks like a reference behind the name. -/
def wideLink : List (Text × Text) :=
  [("crossorigin", "it's"), ("REL", "StyleSheet"), ("href-lang", "href"), ("href", "/a b=?.css"),
    ("data-href", "old.css"), ("title", "href='x'")]

/-- A script with its name in capital letters behind what looks like a reference. -/
def wideScript : List (Text × Text) :=
  [("data-src", "old.js"), ("title", "src='y'"), ("SRC", "/app.js"), ("data-of", "src")]

theorem inlined_reference_wide :
    inlineStylesheets clientRoots ("a > " ++ (linkTag wideLink ++ "<link")) = (do
      let block ← inlineNamed clientRoots.stylesheetCandidates styleElement isExternal
        (linkTag wideLink) (some "/a b=?.css")
      let rest ← inlineStylesheets clientRoots "<link"
      return "a > " ++ (block ++ rest)) ∧
    inlineScripts clientRoots defaultMarkers
        ("a > " ++ (scriptTag (renderAttributes wideScript) ++ "b")) = (do
      let block ← inlineNamed clientRoots.scriptCandidates scriptElement
        (passesScript defaultMarkers) (scriptTag (renderAttributes wideScript)) (some "/app.js")
      let rest ← inlineScripts clientRoots defaultMarkers "b"
      return "a > " ++ (block ++ rest)) := by
  have hlink : ∀ a ∈ wideLink, IsTagAttribute a := by decide
  have hscript : ∀ a ∈ wideScript, IsTagAttribute a := by decide
  have hbefore : '<' ∉ "a > ".toList := by decide
  constructor
  · obtain ⟨hpage, hnamed⟩ := (inlined_reference hlink hbefore "<link" clientRoots
      defaultMarkers).1 (by decide +kernel) (by decide +kernel)
    rw [hnamed (by decide +kernel) (by decide +kernel)] at hpage
    exact hpage
  · obtain ⟨hpage, hnamed⟩ := (inlined_reference hscript hbefore "b" clientRoots
      defaultMarkers).2 (by decide +kernel)
    rw [hnamed (by decide +kernel) (by decide +kernel)] at hpage
    exact hpage

/-- The reference of a link is the value of its attribute `href`. -/
def LinkNames (as : List (Text × Text)) : Prop :=
  href? (linkTag as) = (named? "href" as).map (·.2)

/-- The reference of a script is the value of its attribute `src`. -/
def ScriptNames (as : List (Text × Text)) : Prop :=
  (readScript (scriptTag (renderAttributes as))).map (·.1) = (named? "src" as).map (·.2)

/-- The name in capital letters is not seen in a link. A name that ends in the word is seen before
or behind the name, and without the name too, which leaves a warning. A quote of the other kind ends
the reference. -/
theorem inlined_reference_of_other_name :
    ¬LinkNames [("rel", "stylesheet"), ("HREF", "a.css")] ∧
    ¬LinkNames [("rel", "stylesheet"), ("data-href", "b.css"), ("href", "a.css")] ∧
    ¬LinkNames [("rel", "stylesheet"), ("href", "a\x27s.css")] ∧
    ¬ScriptNames [("src", "a.js"), ("data-src", "b.js")] ∧
    ((inlineStylesheets clientRoots (linkTag [("rel", "stylesheet"), ("data-href", "b.css")])).exec
      ⟨.folder [], []⟩ Session.start).2.log ≠ [] := by
  unfold LinkNames ScriptNames
  refine ⟨?_, ?_, ?_, ?_, ?_⟩ <;> decide +kernel

end StaticSite.Asset
