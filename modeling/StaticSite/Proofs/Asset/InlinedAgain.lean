import StaticSite.Proofs.Asset.Element
import StaticSite.Proofs.Asset.Straddle

/-!
# Inlining twice

Inlining a page that is inlined already changes nothing, as long as no asset holds the front of a
tag of the kind that is replaced. For scripts one more thing can go wrong: a block can complete a
reference that stood open before it.
-/

namespace StaticSite.Asset

open Text Engine

variable {files : SiteTree} {roots : Roots} {markers : List Text}

/-- The path leads to a file that can be read, with this text. -/
def Readable (files : SiteTree) (p : Path) (s : Text) : Prop :=
  (∃ content, FileAt files p content) ∧ textOf files .utf8 p = .ok s

theorem exists_readable_of_loaded? {ps : List Path} {s : Text} (h : loaded? files ps = some s) :
    ∃ p ∈ ps, Readable files p s := by
  induction ps with
  | nil => cases h
  | cons p ps ih =>
      have hlater (h : loaded? files ps = some s) : ∃ q ∈ p :: ps, Readable files q s := by
        obtain ⟨q, hq, hreadable⟩ := ih h
        exact ⟨q, List.mem_cons_of_mem p hq, hreadable⟩
      rw [loaded?] at h
      cases hseen : seen files p with
      | error fault =>
          rw [hseen] at h
          cases h
      | ok there =>
          rw [hseen] at h
          rcases there with _ | content | entries
          · exact hlater h
          · exact ⟨p, List.mem_cons_self, ⟨content, seen_some hseen⟩, eq_ok_of_toOption h⟩
          · exact hlater h

theorem readable_iff {p : Path} {s : Text} : Readable files p s ↔ loaded? files [p] = some s := by
  constructor
  · rintro ⟨⟨content, hfile⟩, htext⟩
    rw [loaded?_of_file hfile, htext]
    rfl
  · intro h
    obtain ⟨q, hq, hreadable⟩ := exists_readable_of_loaded? h
    rw [List.mem_singleton] at hq
    exact hq ▸ hreadable

/-- No stylesheet that a link of the page can bring in holds the front of a link. -/
def FreeOfLinks (files : SiteTree) (roots : Roots) (html : Text) : Prop :=
  ∀ m ∈ hits readStylesheetLink html, ∀ reference, href? m.2 = some reference →
    ∀ p ∈ roots.stylesheetCandidates reference, ∀ css, Readable files p css → ¬Mentions css "<link"

/-- No script that a script of the page can bring in holds the front of a script. -/
def FreeOfScripts (files : SiteTree) (roots : Roots) (html : Text) : Prop :=
  ∀ m ∈ hits readScript html, ∀ p ∈ roots.scriptCandidates m.1, ∀ js, Readable files p js →
    ¬Mentions js "<script"

theorem freeOfLinks_iff {html : Text} : FreeOfLinks files roots html ↔
    ∀ m ∈ hits readStylesheetLink html, ∀ reference ∈ href? m.2,
      ∀ p ∈ roots.stylesheetCandidates reference, ∀ css ∈ loaded? files [p],
        ¬Mentions css "<link" := by
  simp only [FreeOfLinks, readable_iff, Option.mem_def]

theorem freeOfScripts_iff {html : Text} : FreeOfScripts files roots html ↔
    ∀ m ∈ hits readScript html, ∀ p ∈ roots.scriptCandidates m.1, ∀ js ∈ loaded? files [p],
      ¬Mentions js "<script" := by
  simp only [FreeOfScripts, readable_iff, Option.mem_def]

instance (html : Text) : Decidable (FreeOfLinks files roots html) :=
  decidable_of_iff _ freeOfLinks_iff.symm

instance (html : Text) : Decidable (FreeOfScripts files roots html) :=
  decidable_of_iff _ freeOfScripts_iff.symm

theorem FreeOfLinks.asset {html css : Text} (h : FreeOfLinks files roots html) {m : Unit × Text}
    (hm : m ∈ hits readStylesheetLink html) (hcss : linkText? files roots m.2 = some css) :
    ¬Mentions css "<link" := by
  rw [linkText?] at hcss
  cases hhref : href? m.2 with
  | none =>
      rw [hhref] at hcss
      cases hcss
  | some reference =>
      simp only [hhref] at hcss
      split at hcss
      · cases hcss
      · obtain ⟨p, hp, hreadable⟩ := exists_readable_of_loaded? hcss
        exact h m hm reference hhref p hp css hreadable

theorem FreeOfScripts.asset {html js : Text} (h : FreeOfScripts files roots html) {m : Text × Text}
    (hm : m ∈ hits readScript html) (hjs : scriptText? files roots markers m.1 = some js) :
    ¬Mentions js "<script" := by
  rw [scriptText?] at hjs
  split at hjs
  · cases hjs
  · obtain ⟨p, hp, hreadable⟩ := exists_readable_of_loaded? hjs
    exact h m hm p hp js hreadable

/-! ## Blocks hold no matches -/

/-- No match begins in the text of an asset that does not hold the front of one, nor goes on beyond
the line that the text ends with. -/
theorem spares_asset {α : Type} {read : Recogniser α} {mark a : Text}
    (front : ∀ s, afterFolded? mark s = none → read s = none) (hmark : '\n' ∉ mark)
    (ha : ¬Mentions a mark) : read.Spares (a ++ ['\n']) := by
  have hline : isCaseless '\n' := by decide +kernel
  intro u hne hu t
  obtain rfl | ⟨v, rfl, hv⟩ := List.suffix_concat_iff.mp hu
  · exact absurd rfl hne
  · have hnone : afterFolded? mark v = none := by
      cases hread : afterFolded? mark v with
      | none => rfl
      | some rest =>
          obtain ⟨written, hsame, rfl⟩ := afterFolded?_eq_some_iff.mp hread
          have hinfix := (List.prefix_append written rest).isInfix.trans hv.isInfix
          exact absurd ⟨written, hsame, hinfix⟩ ha
    apply front
    rw [List.append_assoc, List.singleton_append, afterFolded?_append_cons hline hmark, hnone]
    rfl

theorem afterFolded?_link {c : Char} (h : sameLetter 'l' c = false) (s : Text) :
    afterFolded? "<link" ('<' :: c :: s) = none := by
  have hmark : "<link".toList = '<' :: 'l' :: "ink".toList := rfl
  rw [hmark, afterFolded?, afterFolded?, h]
  simp

theorem readStylesheetLink_spares {css : Text} (h : ¬Mentions css "<link") :
    Recogniser.Spares readStylesheetLink (styleElement css) := by
  have front (s : Text) (hs : afterFolded? "<link" s = none) : readStylesheetLink s = none := by
    rw [readStylesheetLink, hs]
    rfl
  have hstyle (t : Text) :
      '<' :: ("style".toList ++ '>' :: t) = '<' :: 's' :: ("tyle" ++ '>' :: t) := rfl
  rw [styleElement_eq]
  refine spares_element opensWith_readStylesheetLink (fun s => front _ ?_) (fun t => ?_)
    (by decide) (spares_asset front (by decide) h)
  · exact afterFolded?_link (by decide +kernel) s
  · rw [hstyle]
    exact front _ (afterFolded?_link (by decide +kernel) _)

theorem readScript_bare (s : Text) : readScript ('<' :: ("script".toList ++ '>' :: s)) = none := by
  have hopen : afterFolded? "<script" ("<script" ++ '>' :: s) = some ('>' :: s) :=
    afterFolded?_append _ _
  have hform : '<' :: ("script".toList ++ '>' :: s) = "<script" ++ '>' :: s := rfl
  rw [hform, readScript, hopen]
  rfl

theorem readScript_spares {js : Text} (h : ¬Mentions js "<script") :
    Recogniser.Spares readScript (scriptElement js) := by
  have front (s : Text) (hs : afterFolded? "<script" s = none) : readScript s = none := by
    rw [readScript, hs]
    rfl
  rw [scriptElement_eq]
  exact spares_element opensWith_readScript readScript_slash readScript_bare (by decide)
    (spares_asset front (by decide) h)

/-! ## A second pass -/

theorem linked_eq_reworded (files : SiteTree) (roots : Roots) :
    (fun _ : Unit => linked files roots) =
      reworded fun _ tag => (linkText? files roots tag).map styleElement := rfl

theorem scripted_eq_reworded (files : SiteTree) (roots : Roots) (markers : List Text) :
    scripted files roots markers =
      reworded fun reference _ =>
        (scriptText? files roots markers reference).map scriptElement := rfl

theorem settles_links {html : Text} (h : FreeOfLinks files roots html) :
    Settles readStylesheetLink
      (fun _ tag => (linkText? files roots tag).map styleElement) html := by
  refine ⟨fun hsplit hput => ?_, fun hsplit hput v hne _ rest => ?_⟩
  · obtain ⟨css, hcss, rfl⟩ := Option.map_eq_some_iff.mp hput
    exact readStylesheetLink_spares (h.asset (mem_hits_of_split hsplit) hcss)
  · obtain ⟨css, hcss, rfl⟩ := Option.map_eq_some_iff.mp hput
    rw [styleElement_eq, element, List.cons_append]
    exact seenAlike_readStylesheetLink (read_of_split consumes_readStylesheetLink hsplit) hne _

/-- No block is put in after an open reference for a script whose reference holds a `>`. -/
def NoneLeftOpen (files : SiteTree) (roots : Roots) (markers : List Text) (html : Text) : Prop :=
  ∀ ps reference tag qs, split readScript html = ps ++ .hit reference tag :: qs →
    '>' ∈ reference → (scriptText? files roots markers reference).isSome →
      ¬LeavesOpen (ps.flatMap (Piece.replaced (scripted files roots markers)))

theorem settles_scripts {html : Text} (h : FreeOfScripts files roots html)
    (hopen : NoneLeftOpen files roots markers html) :
    Settles readScript
      (fun reference _ => (scriptText? files roots markers reference).map scriptElement) html := by
  refine ⟨fun hsplit hput => ?_, fun hsplit hput v hne hv rest => ?_⟩
  · obtain ⟨js, hjs, rfl⟩ := Option.map_eq_some_iff.mp hput
    exact readScript_spares (h.asset (mem_hits_of_split hsplit) hjs)
  · obtain ⟨js, hjs, rfl⟩ := Option.map_eq_some_iff.mp hput
    rw [scriptElement_append]
    have hread := read_of_split consumes_readScript hsplit
    rw [← scripted_eq_reworded] at hv
    refine seenAlike_readScript hread hne (fun hgt hleft => ?_) _
    exact hopen _ _ _ _ hsplit hgt (Option.isSome_of_eq_some hjs) (hleft.of_suffix hv)

/-- Inlining an inlined page changes nothing, and the tags that are still found in it are those that
were left as they stood. -/
theorem inlining_settles (files : SiteTree) (roots : Roots) (markers : List Text) (html : Text) :
    (FreeOfLinks files roots html →
      ∃ out, Ensures files (inlineStylesheets roots html) (· = out) ∧
        Ensures files (inlineStylesheets roots out) (· = out) ∧
        hits readStylesheetLink out = (hits readStylesheetLink html).filter fun m =>
          (linkText? files roots m.2).isNone) ∧
    (FreeOfScripts files roots html → NoneLeftOpen files roots markers html →
      ∃ out, Ensures files (inlineScripts roots markers html) (· = out) ∧
        Ensures files (inlineScripts roots markers out) (· = out) ∧
        hits readScript out = (hits readScript html).filter fun m =>
          (scriptText? files roots markers m.1).isNone) := by
  constructor
  · intro hfree
    have hsettles := settles_links hfree
    have hagain := replaceAll_again consumes_readStylesheetLink hsettles
    have hhits := hits_replaceAll consumes_readStylesheetLink hsettles
    rw [← linked_eq_reworded] at hagain hhits
    refine ⟨_, ensures_inlineStylesheets roots html, ?_, ?_⟩
    · exact (ensures_inlineStylesheets roots _).mono fun _ h => h.trans hagain
    · simpa using hhits
  · intro hfree hopen
    have hsettles := settles_scripts hfree hopen
    have hagain := replaceAll_again consumes_readScript hsettles
    have hhits := hits_replaceAll consumes_readScript hsettles
    rw [← scripted_eq_reworded] at hagain hhits
    refine ⟨_, ensures_inlineScripts roots markers html, ?_, ?_⟩
    · exact (ensures_inlineScripts roots markers _).mono fun _ h => h.trans hagain
    · simpa using hhits

def twiceRoots : Roots := .of (Path.ofText "src") none defaultAssetsDir

def twiceFiles : SiteTree :=
  ⟨.folder [("src", .folder [("a.css", textFile "p\x7b\x7d"), ("a.js", textFile "f()")])], []⟩

def twiceLink : Text := "<link rel=\"stylesheet\" href=\"a.css\">"

def twiceScript : Text := "<script src=\"a.js\"></script>"

theorem hits_twice_links :
    hits readStylesheetLink (twiceLink ++ twiceScript) = [((), twiceLink)] := by
  decide +kernel

theorem hits_twice_scripts :
    hits readScript (twiceLink ++ twiceScript) = [("a.js".toList, twiceScript)] := by
  decide +kernel

theorem inlining_settles_twice :
    (∃ out, Ensures twiceFiles (inlineStylesheets twiceRoots (twiceLink ++ twiceScript)) (· = out) ∧
      Ensures twiceFiles (inlineStylesheets twiceRoots out) (· = out) ∧
      hits readStylesheetLink out = []) ∧
    ∃ out, Ensures twiceFiles (inlineScripts twiceRoots defaultMarkers (twiceLink ++ twiceScript))
        (· = out) ∧
      Ensures twiceFiles (inlineScripts twiceRoots defaultMarkers out) (· = out) ∧
      hits readScript out = [] := by
  have hlinks : linkText? twiceFiles twiceRoots twiceLink = some "p\x7b\x7d" := by decide +kernel
  have hscripts : scriptText? twiceFiles twiceRoots defaultMarkers "a.js" = some "f()" := by
    decide +kernel
  have hfreeLinks : FreeOfLinks twiceFiles twiceRoots (twiceLink ++ twiceScript) := by
    rw [freeOfLinks_iff, hits_twice_links]
    decide +kernel
  have hfreeScripts : FreeOfScripts twiceFiles twiceRoots (twiceLink ++ twiceScript) := by
    rw [freeOfScripts_iff, hits_twice_scripts]
    decide +kernel
  have hclosed : NoneLeftOpen twiceFiles twiceRoots defaultMarkers (twiceLink ++ twiceScript) := by
    intro ps reference tag qs hsplit hgt
    have hm := mem_hits_of_split hsplit
    rw [hits_twice_scripts, List.mem_singleton] at hm
    cases hm
    exact absurd hgt (by decide)
  obtain ⟨hfirst, hsecond⟩ :=
    inlining_settles twiceFiles twiceRoots defaultMarkers (twiceLink ++ twiceScript)
  simp only [hits_twice_links, List.filter_cons, hlinks] at hfirst
  simp only [hits_twice_scripts, List.filter_cons, hscripts] at hsecond
  exact ⟨hfirst hfreeLinks, hsecond hfreeScripts hclosed⟩

def openFiles : SiteTree :=
  ⟨.folder [("src", .folder [("><script>\n", textFile "x"),
    ("a>b.js", textFile "\"></script>")])], []⟩

/-- A reference that is left open before a script whose own reference holds a `>`. -/
def openPage : Text := "<script src=\"><script src=\"a>b.js\"></script>"

/-- The page after one pass: the text of the asset closes the reference. -/
def openPageOnce : Text := "<script src=\"><script>\n\"></script>\n</script>"

/-- A second pass finds a script that the first one has made, and replaces it. -/
theorem openPage_not_settled :
    FreeOfScripts openFiles twiceRoots openPage ∧ FreeOfScripts openFiles twiceRoots openPageOnce ∧
      ((inlineScripts twiceRoots defaultMarkers openPage).exec openFiles .start).1 =
        .ok openPageOnce ∧
      ((inlineScripts twiceRoots defaultMarkers openPageOnce).exec openFiles .start).1 ≠
        .ok openPageOnce := by
  refine ⟨by decide +kernel, by decide +kernel, eq_ok_of_toOption (by decide +kernel), ?_⟩
  have htwice : ((inlineScripts twiceRoots defaultMarkers openPageOnce).exec openFiles
      .start).1.toOption = some "<script>\nx\n</script>\n</script>" := by
    decide +kernel
  intro h
  rw [h] at htwice
  exact absurd htwice (by decide)

end StaticSite.Asset
