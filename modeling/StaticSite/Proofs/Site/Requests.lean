import StaticSite.Proofs.Component.Reach
import StaticSite.Proofs.Site.Discovery
import StaticSite.Proofs.Text.LetterCase

/-!
# Requests

A request is passed on, or is for the index, or names a page, or is for a page that is looked for.
The page that it is for lies below the root unless the URL leads up. Every page that is discovered
is served, under its own name and, if that is no name of an asset, without its suffix.
-/

namespace StaticSite

open Tree Path Node Engine

/-- A URL's path without the slashes at its front. -/
def unslashed (path : Text) : Text := path.dropWhile (· == '/')

/-- The page that is looked for where the path does not name one. -/
def probedPage (path : Text) : Text := unslashed path ++ pageSuffix

/-- The path is none of a page. -/
def IsPassedOn (path : Text) : Prop :=
  Text.startsWith "/@" path ∨ Text.startsWith "/__" path ∨ isAssetRequest path

/-- The path names no page, so that one is looked for. -/
structure IsProbed (path : Text) : Prop where
  kept : ¬IsPassedOn path
  not_index : path ∉ indexUrls
  not_named : ¬Text.endsWith pageSuffix path

/-- How a request ends. -/
inductive Answer (e : Environment) (files : SiteTree) (path : Text) :
    Except Fault (Option Text) → Prop
  | passed (h : IsPassedOn path) : Answer e files path (.ok none)
  | index (kept : ¬IsPassedOn path) (h : path ∈ indexUrls) :
      Answer e files path (.ok (some "index.html".toList))
  | named (kept : ¬IsPassedOn path) (h : Text.endsWith pageSuffix path) :
      Answer e files path (.ok (some (unslashed path)))
  | found (h : IsProbed path) {content : Content}
      (file : seen files (e.pagePath (probedPage path)) = .ok (some (.file content))) :
      Answer e files path (.ok (some (probedPage path)))
  | missed (h : IsProbed path)
      (no_file : ∀ content, seen files (e.pagePath (probedPage path)) ≠ .ok (some (.file content)))
      (admitted : Admits files (e.pagePath (probedPage path))) : Answer e files path (.ok none)
  | refused (h : IsProbed path) {cause : FileCause}
      (refused : Refuses files (e.pagePath (probedPage path)) cause) :
      Answer e files path (.error (.file cause (e.pagePath (probedPage path))))

section Answer

variable {e : Environment} {files : SiteTree} {path : Text}

theorem exists_answer_probed (h : IsProbed path) :
    ∃ result, Looks files (do
      return if ← isFile (e.pagePath (probedPage path)) then some (probedPage path) else none)
        result ∧ Answer e files path result := by
  have hlooks : Looks files (isFile (e.pagePath (probedPage path))) _ := looks_isFile
  cases hseen : seen files (e.pagePath (probedPage path)) with
  | error fault =>
      obtain ⟨cause, hrefused, rfl⟩ := seen_error_iff.mp hseen
      rw [hseen] at hlooks
      exact ⟨_, fun s => by rw [exec_bind, hlooks s]; rfl, .refused h hrefused⟩
  | ok there =>
      rw [hseen] at hlooks
      have hadmits : Admits files (e.pagePath (probedPage path)) := admits_of_seen hseen
      rcases there with _ | content | entries
      · refine ⟨.ok none, fun s => by rw [exec_bind, hlooks s]; rfl, .missed h ?_ hadmits⟩
        rw [hseen]
        rintro content ⟨⟩
      · exact ⟨_, fun s => by rw [exec_bind, hlooks s]; rfl, .found h hseen⟩
      · refine ⟨.ok none, fun s => by rw [exec_bind, hlooks s]; rfl, .missed h ?_ hadmits⟩
        rw [hseen]
        rintro content ⟨⟩

/-- A request leaves the session as it is and depends on the path of its URL alone. -/
theorem exists_answer (e : Environment) (files : SiteTree) (url : Text) :
    ∃ result, Looks files (resolveRequest e url) result ∧ Answer e files (urlPath url) result := by
  unfold resolveRequest
  simp only
  split
  · rename_i hpassed
    refine ⟨_, .pure none, .passed ?_⟩
    simpa [IsPassedOn, or_assoc] using hpassed
  rename_i hpassed
  have hkept : ¬IsPassedOn (urlPath url) := by simpa [IsPassedOn, or_assoc] using hpassed
  split
  · rename_i hindex
    exact ⟨_, .pure _, .index hkept (by simpa using hindex)⟩
  rename_i hindex
  split
  · rename_i hpage
    exact ⟨_, .pure _, .named hkept hpage⟩
  · rename_i hpage
    exact exists_answer_probed ⟨hkept, by simpa using hindex, hpage⟩

end Answer

/-! ## Where the pages of requests lie -/

namespace Path

open Text

variable {s : Text}

theorem parts_unslashed (s : Text) : (ofText (unslashed s)).parts = (ofText s).parts := by
  change partsOf (unslashed s) = partsOf s
  induction s with
  | nil => rfl
  | cons c s ih =>
      by_cases hc : c = '/'
      · subst hc
        have hdrop : unslashed ('/' :: s) = unslashed s := List.dropWhile_cons_of_pos rfl
        rw [hdrop, ih, partsOf, partsOf, fields, if_pos rfl]
        rfl
      · have hkeep : unslashed (c :: s) = c :: s :=
          List.dropWhile_cons_of_neg (by simpa using hc)
        rw [hkeep]

theorem head?_unslashed (s : Text) : (unslashed s).head? ≠ some '/' := by
  intro h
  rw [unslashed] at h
  have hhead := List.head?_dropWhile_not (· == '/') s
  rw [h] at hhead
  cases hhead

theorem unslashed_of_head (h : s.head? ≠ some '/') : unslashed s = s := by
  cases s with
  | nil => rfl
  | cons c s => exact List.dropWhile_cons_of_neg (by simpa using h)

/-- A suffix is never taken for one of the slashes at the front. -/
theorem unslashed_append (s : Text) {t : Text} (ht : t.head? ≠ some '/') :
    unslashed (s ++ t) = unslashed s ++ t := by
  rw [unslashed, List.dropWhile_append]
  split
  · rename_i hempty
    have hslashes : unslashed s = [] := List.isEmpty_iff.mp hempty
    rw [hslashes, List.nil_append]
    exact unslashed_of_head ht
  · rfl

theorem parentName_mem_of_append (h : parentName ∈ (ofText (s ++ pageSuffix)).parts) :
    parentName ∈ (ofText s).parts := by
  obtain ⟨lead, last, hfields, happend⟩ :=
    fields_append_of_notMem (c := '/') (t := pageSuffix) (by decide) s
  obtain ⟨hmem, hkept⟩ := List.mem_filter.mp h
  rw [happend, List.mem_append, List.mem_singleton] at hmem
  refine List.mem_filter.mpr ⟨?_, hkept⟩
  rw [hfields]
  apply List.mem_append_left
  apply hmem.resolve_right
  intro hlast
  have hlength := congrArg List.length hlast
  rw [List.length_append] at hlength
  have hparent : parentName.length = 2 := rfl
  have hsuffix : pageSuffix.length = 5 := rfl
  omega

theorem leadsDown_append (hhead : (s ++ pageSuffix).head? ≠ some '/')
    (hup : parentName ∉ (ofText (s ++ pageSuffix)).parts) : LeadsDown (s ++ pageSuffix) := by
  refine ⟨isAbsolute_ofText_eq_false_iff.mpr hhead, ?_, hup⟩
  obtain ⟨folder, stem, hbelow⟩ := exists_ofText_append s
  simp [hbelow pageSuffix (by decide)]

end Path

/-- What is under a path by its parts is below it in every tree. -/
theorem Tree.isBelow_of_isUnder {α : Type} {t : Tree α} {base p : Path} (h : base.IsUnder p) :
    t.IsBelow base (t.resolve p).parts := by
  obtain ⟨parts, hne, hup, rfl⟩ := h
  refine ⟨parts, hne, ?_⟩
  have hcollapse (all : List Text) : collapse all = lead [] all := reverse_collapse_fold [] all
  have hstart : (base.below parts).isAbsolute = base.isAbsolute := rfl
  rw [resolve, resolve, hstart, parts_below, hcollapse, hcollapse, ← List.append_assoc,
    lead_append, lead_of_notMem hup]

section Pages

variable {e : Environment} {files : SiteTree} {path page : Text}

/-- The page for a path is written relative to the root, and leads up only if the path does. -/
structure IsPageFor (path page : Text) : Prop where
  suffixed : ∃ stem, page = stem ++ pageSuffix
  relative : page.head? ≠ some '/'
  up : parentName ∈ (ofText page).parts → parentName ∈ (ofText path).parts

theorem Answer.isPageFor (h : Answer e files path (.ok (some page))) : IsPageFor path page := by
  cases h with
  | index kept h => exact ⟨⟨"index", rfl⟩, by decide, fun hup => absurd hup (by decide)⟩
  | named kept h =>
      refine ⟨?_, head?_unslashed path, fun hup => parts_unslashed path ▸ hup⟩
      obtain ⟨stem, rfl⟩ := Text.endsWith_iff.mp h
      exact ⟨unslashed stem, unslashed_append stem (by decide)⟩
  | found h file =>
      refine ⟨⟨unslashed path, rfl⟩, ?_, fun hup => ?_⟩
      · rw [probedPage, ← unslashed_append path (by decide)]
        exact head?_unslashed _
      · exact parts_unslashed path ▸ parentName_mem_of_append hup

theorem IsPageFor.isUnder_iff (h : IsPageFor path page) :
    e.root.IsUnder (e.pagePath page) ↔ parentName ∉ (ofText page).parts := by
  obtain ⟨⟨stem, rfl⟩, hhead, -⟩ := h
  rw [Environment.pagePath, isUnder_child_iff (isAbsolute_ofText_eq_false_iff.mpr hhead)]
  exact ⟨LeadsDown.never_up, leadsDown_append hhead⟩

end Pages

/-- A request ends with a page or without one, unless it is for a page that is looked for at a path
that cannot be looked at. The page has a relative path, and what it means lies below the root unless
`..` is one of its parts, which it can only be if it is one of the URL's. -/
theorem resolveRequest_contained (e : Environment) (files : SiteTree) (url : Text) :
    ∃ result, Looks files (resolveRequest e url) result ∧
      (∀ fault, result = .error fault ↔
        IsProbed (urlPath url) ∧
          ∃ cause, Refuses files (e.pagePath (probedPage (urlPath url))) cause ∧
            fault = .file cause (e.pagePath (probedPage (urlPath url)))) ∧
      ∀ page, result = .ok (some page) →
        (ofText page).isAbsolute = false ∧
        (parentName ∈ (ofText page).parts → parentName ∈ (ofText (urlPath url)).parts) ∧
        (e.root.IsUnder (e.pagePath page) ↔ parentName ∉ (ofText page).parts) ∧
        (e.root.IsUnder (e.pagePath page) →
          files.IsBelow e.root (files.resolve (e.pagePath page)).parts) := by
  obtain ⟨result, hlooks, hanswer⟩ := exists_answer e files url
  refine ⟨result, hlooks, fun fault => ⟨?_, ?_⟩, ?_⟩
  · rintro rfl
    cases hanswer with
    | refused h refused => exact ⟨h, _, refused, rfl⟩
  · rintro ⟨hprobed, cause, hrefused, rfl⟩
    cases hanswer with
    | passed h => exact absurd h hprobed.kept
    | index kept h => exact absurd h hprobed.not_index
    | named kept h => exact absurd h hprobed.not_named
    | found h file =>
        rw [seen_error_iff.mpr ⟨cause, hrefused, rfl⟩] at file
        cases file
    | missed h no_file admitted => exact absurd hrefused (admitted cause)
    | refused h refused => rw [Except.error.inj (refused.refused.symm.trans hrefused.refused)]
  · rintro page rfl
    have hpage := hanswer.isPageFor
    exact ⟨isAbsolute_ofText_eq_false_iff.mpr hpage.relative, hpage.up, hpage.isUnder_iff,
      isBelow_of_isUnder⟩

def postEntries : List (Text × Node Content) :=
  [("blog", .folder [("post.html", textFile "p")]), ("index.html", textFile "i")]

def postFiles : SiteTree :=
  ⟨.folder [("secret.html", textFile "s"), ("src", .folder postEntries)], []⟩

def postSite : Environment := Environment.ofRoot (ofText "src") none

theorem resolveRequest_contained_post :
    Looks postFiles (resolveRequest postSite "/blog/post?draft") (.ok (some "blog/post.html")) ∧
      parentName ∉ (ofText (urlPath "/blog/post?draft")).parts ∧
      postSite.root.IsUnder (postSite.pagePath "blog/post.html") := by
  obtain ⟨result, hlooks, -, hpage⟩ :=
    resolveRequest_contained postSite postFiles "/blog/post?draft"
  have hend : Looks postFiles (resolveRequest postSite "/blog/post?draft")
      (.ok (some "blog/post.html")) := fun _ => rfl
  have hsame : result = .ok (some "blog/post.html".toList) :=
    congrArg Prod.fst ((hlooks .start).symm.trans (hend .start))
  obtain ⟨-, hup, hunder, -⟩ := hpage _ hsame
  have hurl : parentName ∉ (ofText (urlPath "/blog/post?draft")).parts := by decide
  exact ⟨hend, hurl, hunder.mpr fun hmem => hurl (hup hmem)⟩

def longUrl : Text := '/' :: List.replicate 300 'a'

/-- A URL that leads up is for a page outside the root, and one that is too long fails. -/
theorem resolveRequest_leads_out :
    Looks postFiles (resolveRequest postSite "/../secret.html") (.ok (some "../secret.html")) ∧
      postFiles.find (postSite.pagePath "../secret.html") = .ok (textFile "s") ∧
      ¬postSite.root.IsUnder (postSite.pagePath "../secret.html") ∧
      ¬∃ found, ((resolveRequest postSite longUrl).exec postFiles .start).1 = .ok found := by
  refine ⟨fun _ => rfl, rfl, fun hunder => ?_, ?_⟩
  · rw [Environment.pagePath, isUnder_child_iff (by decide)] at hunder
    exact hunder.never_up (by decide)
  · have hfails : ((resolveRequest postSite longUrl).exec postFiles .start).1.toOption = none := by
      decide +kernel
    rintro ⟨found, hfound⟩
    rw [hfound] at hfails
    cases hfails

/-! ## Pages that are discovered are served -/

section Served

variable {e : Environment} {files : SiteTree} {s : Session} {pages : List Text}
  {page stem path tail : Text} {result : Except Fault (Option Text)}

theorem urlPath_append (hquery : '?' ∉ path) (hfragment : '#' ∉ path)
    (htail : ∀ c ∈ tail.head?, c = '?' ∨ c = '#') : urlPath (path ++ tail) = path := by
  refine (Text.takeWhile_append_of_head (fun c hc => ?_) fun c hc => ?_).1
  · simp [ne_of_mem_of_not_mem hc hquery, ne_of_mem_of_not_mem hc hfragment]
  · rcases htail c hc with rfl | rfl <;> rfl

theorem hasAssetSuffix_of_getLast? (h : path.getLast? = some 'l') :
    hasAssetSuffix path = false := by
  have hsuffixes : ∀ suffix ∈ assetSuffixes,
      suffix ≠ [] ∧ suffix.getLast?.map Text.fold ≠ some (Text.fold 'l') := by
    decide +kernel
  rw [hasAssetSuffix, List.any_eq_false]
  intro suffix hsuffix hmatch
  obtain ⟨hne, hlast⟩ := hsuffixes suffix hsuffix
  obtain ⟨written, hsame, hwritten⟩ := Text.afterFolded?_eq_some_iff.mp (beq_iff_eq.mp hmatch)
  rw [List.append_nil] at hwritten
  have hlasts := congrArg List.getLast? hsame
  rw [List.getLast?_map, List.getLast?_map, ← hwritten, List.getLast?_drop] at hlasts
  split at hlasts
  · rw [Option.map_none, Option.map_eq_none_iff, List.getLast?_eq_none_iff] at hlasts
    exact hne hlasts
  · rw [h] at hlasts
    exact hlast hlasts

theorem isAssetRequest_of_page (s : Text) : isAssetRequest (s ++ pageSuffix) = false := by
  have hlast : (s ++ pageSuffix).getLast? = some 'l' := by
    rw [List.getLast?_append]
    rfl
  rw [isAssetRequest, hasAssetSuffix_of_getLast? hlast, hlast]
  rfl

theorem isPassedOn_slash_iff :
    IsPassedOn ('/' :: path) ↔
      Text.startsWith "@" path ∨ Text.startsWith "__" path ∨ isAssetRequest ('/' :: path) :=
  Iff.rfl

theorem unslashed_slash (h : path.head? ≠ some '/') : unslashed ('/' :: path) = path := by
  rw [unslashed, List.dropWhile_cons_of_pos rfl]
  exact unslashed_of_head h

theorem endsWith_of_slash (h : Text.endsWith pageSuffix ('/' :: path)) :
    Text.endsWith pageSuffix path := by
  obtain ⟨lead, hlead⟩ := Text.endsWith_iff.mp h
  cases lead with
  | nil => cases hlead
  | cons c lead =>
      cases hlead
      exact Text.endsWith_append lead pageSuffix

/-- Of the URLs of the index one names the page and one its stem. -/
theorem indexUrls_spec : ∀ url ∈ indexUrls, url = ['/'] ∨
    (if Text.endsWith pageSuffix url then url = '/' :: "index.html".toList
      else url = '/' :: "index".toList) := by
  decide

/-- A page of which the name is asked for is served. -/
theorem Answer.of_page (h : Answer e files ('/' :: (stem ++ pageSuffix)) result)
    (hat : Text.startsWith "@" (stem ++ pageSuffix) = false)
    (hunderscores : Text.startsWith "__" (stem ++ pageSuffix) = false)
    (hhead : (stem ++ pageSuffix).head? ≠ some '/') :
    result = .ok (some (stem ++ pageSuffix)) := by
  have hkept : ¬IsPassedOn ('/' :: (stem ++ pageSuffix)) := by
    rw [isPassedOn_slash_iff, hat, hunderscores, ← List.cons_append, isAssetRequest_of_page]
    simp
  have hnamed : Text.endsWith pageSuffix ('/' :: (stem ++ pageSuffix)) :=
    Text.endsWith_append ('/' :: stem) pageSuffix
  cases h with
  | passed h => exact absurd h hkept
  | index kept h =>
      have hindex := indexUrls_spec _ h
      rw [if_pos hnamed] at hindex
      rcases hindex with hslash | hindex
      · exact absurd (List.cons.inj hslash).2 (by simp [pageSuffix])
      · rw [(List.cons.inj hindex).2]
  | named kept h => rw [unslashed_slash hhead]
  | found h file => exact absurd hnamed h.not_named
  | missed h no_file admitted => exact absurd hnamed h.not_named
  | refused h refused => exact absurd hnamed h.not_named

/-- A page that is there is served when its name is asked for without the suffix. -/
theorem Answer.of_stem (h : Answer e files ('/' :: stem) result) (hstem : stem ≠ [])
    (hat : Text.startsWith "@" stem = false) (hunderscores : Text.startsWith "__" stem = false)
    (hasset : isAssetRequest ('/' :: stem) = false)
    (hnamed : Text.endsWith pageSuffix stem = false) (hhead : stem.head? ≠ some '/')
    {content : Content}
    (hseen : seen files (e.pagePath (stem ++ pageSuffix)) = .ok (some (.file content))) :
    result = .ok (some (stem ++ pageSuffix)) := by
  have hkept : ¬IsPassedOn ('/' :: stem) := by
    rw [isPassedOn_slash_iff, hat, hunderscores, hasset]
    simp
  have hprobed : probedPage ('/' :: stem) = stem ++ pageSuffix := by
    rw [probedPage, unslashed_slash hhead]
  have hunnamed : ¬Text.endsWith pageSuffix ('/' :: stem) := fun hends => by
    simp [endsWith_of_slash hends] at hnamed
  cases h with
  | passed h => exact absurd h hkept
  | index kept h =>
      have hindex := indexUrls_spec _ h
      rw [if_neg hunnamed] at hindex
      rcases hindex with hslash | hindex
      · exact absurd (List.cons.inj hslash).2 hstem
      · rw [(List.cons.inj hindex).2]
        rfl
  | named kept h => exact absurd h hunnamed
  | found h file => rw [hprobed]
  | missed h no_file admitted =>
      rw [hprobed] at no_file
      exact absurd hseen (no_file content)
  | refused h refused =>
      rw [hprobed] at refused
      rw [seen_error_iff.mpr ⟨_, refused, rfl⟩] at hseen
      cases hseen

/-- The name of a page is the page's suffix with something before it, since a name that is all
suffix counts as one without. -/
theorem IsPagePlace.exists_stem {componentsDir : Text} {place : List Text}
    (h : IsPagePlace componentsDir place) (hne : place ≠ [])
    (hnames : ∀ name ∈ place, IsName name) :
    ∃ stem, slashed place = stem ++ pageSuffix ∧ stem ≠ [] := by
  have hread : ofText (slashed place) = ⟨.relative, place⟩ := ofText_slashed hne hnames
  obtain ⟨lead, name, rfl⟩ := (List.eq_nil_or_concat place).resolve_left hne
  rw [List.concat_eq_append] at hread ⊢
  have hsuffix : suffix name = pageSuffix := by simpa using h.2
  have hjoin := slashed_dropSuffix lead name
  rw [hsuffix] at hjoin
  refine ⟨slashed (dropSuffix (lead ++ [name])), hjoin.symm, fun hempty => ?_⟩
  rw [hempty, List.nil_append] at hjoin
  have hparts := congrArg Path.parts hread
  rw [← hjoin] at hparts
  have hsingle : [] ++ [pageSuffix] = lead ++ [name] := hparts
  have hname := List.append_inj_right' hsingle rfl
  rw [← List.singleton_inj.mp hname] at hsuffix
  exact absurd hsuffix (by decide)

/-- A page that is discovered is a file that is seen by its path, with something before its suffix.
-/
theorem exists_stem_of_discoverPages (hwf : files.WellFormed)
    (h : ((discoverPages e.root e.componentsDir).exec files s).1 = .ok pages)
    (hpage : page ∈ pages) :
    ∃ stem content, page = stem ++ pageSuffix ∧ stem ≠ [] ∧ page.head? ≠ some '/' ∧
      seen files (e.pagePath page) = .ok (some (.file content)) := by
  obtain ⟨entries, hdiscovered⟩ := discovered_of_mem hwf.ordered h hpage
  obtain ⟨place, content, rfl, hreached, hsuffix⟩ := (hdiscovered.mem page).mp hpage
  have hlists := hdiscovered.lists
  have hne := hreached.ne
  have hnames := hreached.isName hwf hlists
  have hplace : IsPagePlace e.componentsDir place := ⟨hreached.outside, hsuffix⟩
  obtain ⟨stem, hpagename, hstem⟩ := hplace.exists_stem hne hnames
  refine ⟨stem, content, hpagename, hstem, ?_, ?_⟩
  · rw [← isAbsolute_ofText_eq_false_iff, ofText_slashed hne hnames]
    rfl
  · rw [Environment.pagePath, child_slashed _ hne hnames]
    refine seen_of_look (hreached.null_notMem hwf hlists) (hreached.look hwf hlists ?_)
    exact hdiscovered.seen place _ hreached

/-- Every page that is discovered is served under its name, whatever query or fragment follows. It
is also served without its suffix, when what is left ends neither in the suffix of an asset nor in
that of a page. -/
theorem resolveRequest_discovered (hwf : files.WellFormed)
    (h : ((discoverPages e.root e.componentsDir).exec files s).1 = .ok pages)
    (hpage : page ∈ pages) (hat : Text.startsWith "@" page = false)
    (hunderscores : Text.startsWith "__" page = false) (hquery : '?' ∉ page)
    (hfragment : '#' ∉ page) :
    ∃ stem, page = stem ++ pageSuffix ∧ ∀ tail, (∀ c ∈ tail.head?, c = '?' ∨ c = '#') →
      Looks files (resolveRequest e ('/' :: page ++ tail)) (.ok (some page)) ∧
      (isAssetRequest ('/' :: stem) = false → Text.endsWith pageSuffix stem = false →
        Looks files (resolveRequest e ('/' :: stem ++ tail)) (.ok (some page))) := by
  obtain ⟨stem, content, rfl, hstem, hhead, hseen⟩ := exists_stem_of_discoverPages hwf h hpage
  refine ⟨stem, rfl, fun tail htail => ⟨?_, fun hasset hnamed => ?_⟩⟩
  · obtain ⟨result, hlooks, hanswer⟩ :=
      exists_answer e files ('/' :: (stem ++ pageSuffix) ++ tail)
    rw [urlPath_append (by simpa using hquery) (by simpa using hfragment) htail] at hanswer
    rwa [hanswer.of_page hat hunderscores hhead] at hlooks
  · have hstart (mark : Text) (hmark : Text.startsWith mark (stem ++ pageSuffix) = false) :
        Text.startsWith mark stem = false := by
      rw [Bool.eq_false_iff] at hmark ⊢
      exact fun h => hmark (Text.startsWith_append h pageSuffix)
    have hstemHead : stem.head? ≠ some '/' := by
      obtain ⟨c, rest, rfl⟩ := List.exists_cons_of_ne_nil hstem
      exact hhead
    rw [List.mem_append, not_or] at hquery hfragment
    obtain ⟨result, hlooks, hanswer⟩ := exists_answer e files ('/' :: stem ++ tail)
    rw [urlPath_append (by simpa using hquery.1) (by simpa using hfragment.1) htail] at hanswer
    have hresult := hanswer.of_stem hstem (hstart _ hat) (hstart _ hunderscores) hasset hnamed
      hstemHead hseen
    rwa [hresult] at hlooks

theorem wellFormed_postFiles : postFiles.WellFormed :=
  wellFormed_of_descendants (by decide) (by decide) ⟨_, rfl⟩

def postPages : List Text := ["blog/post.html", "index.html"]

theorem resolveRequest_discovered_post :
    "blog/post.html".toList ∈ postPages ∧
      Looks postFiles (resolveRequest postSite "/blog/post.html?draft")
        (.ok (some "blog/post.html")) ∧
      Looks postFiles (resolveRequest postSite "/blog/post#end") (.ok (some "blog/post.html")) := by
  have hpages : ((discoverPages postSite.root postSite.componentsDir).exec postFiles .start).1 =
      .ok postPages := rfl
  have hpage : "blog/post.html".toList ∈ postPages := by decide
  obtain ⟨stem, hstem, hserved⟩ := resolveRequest_discovered wellFormed_postFiles hpages hpage
    (by decide) (by decide) (by decide) (by decide)
  have hjoin : "blog/post".toList ++ pageSuffix = stem ++ pageSuffix := hstem
  obtain rfl := List.append_cancel_right hjoin
  have hquery : ∀ c ∈ "?draft".toList.head?, c = '?' ∨ c = '#' :=
    fun c hc => .inl (Option.some.inj hc).symm
  have hfragment : ∀ c ∈ "#end".toList.head?, c = '?' ∨ c = '#' :=
    fun c hc => .inr (Option.some.inj hc).symm
  exact ⟨hpage, (hserved "?draft" hquery).1,
    (hserved "#end" hfragment).2 (by decide) (by decide)⟩

end Served

end StaticSite
