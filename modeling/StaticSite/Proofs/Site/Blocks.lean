import StaticSite.Proofs.Asset.Element
import StaticSite.Proofs.Asset.Loaded
import StaticSite.Proofs.Markup.AnyHole
import StaticSite.Site.Environment

/-!
# Inlined blocks in a built page

An asset is inlined as a block between tags. The passes after it begin no match in the block, so
the block stands in the built page unless a match that began before it is replaced.
-/

namespace StaticSite

open Text Asset Markup

deriving instance DecidableEq for Piece

namespace Asset

/-- Where the place `n` is after the marked scripts are taken out, unless it is taken out too. -/
def strippedPlace? : List Text → Text → Nat → Option Nat
  | [], _, n => some n
  | marker :: markers, s, n => do
      let moved ← moved? (fun _ _ => []) (split (readMarkedScript marker) s) n
      strippedPlace? markers (replaceAll (readMarkedScript marker) (fun _ _ => []) s) moved

theorem afterFolded?_script_of_style (s : Text) :
    afterFolded? "<script" ('<' :: 's' :: 't' :: s) = none := by
  have hmark : "<script".toList = '<' :: 's' :: 'c' :: "ript".toList := rfl
  have hletter : sameLetter 'c' 't' = false := by decide +kernel
  rw [hmark, afterFolded?, afterFolded?, afterFolded?, hletter]
  simp

theorem readScript_spares_style {a : Text} (ha : '<' ∉ a) :
    Recogniser.Spares readScript (styleElement a) := by
  rw [styleElement_eq]
  refine spares_element opensWith_readScript readScript_slash (fun t => ?_) (by decide)
    (opensWith_readScript.spares (by simp [ha]))
  have hform : '<' :: ("style".toList ++ '>' :: t) = '<' :: 's' :: 't' :: ("yle" ++ '>' :: t) := rfl
  rw [readScript, hform, afterFolded?_script_of_style]
  rfl

theorem readMarkedScript_spares_style (marker : Text) {a : Text} (ha : '<' ∉ a) :
    Recogniser.Spares (readMarkedScript marker) (styleElement a) := by
  rw [styleElement_eq]
  refine spares_element (opensWith_readMarkedScript marker) (readMarkedScript_slash marker)
    (fun t => ?_) (by decide) ((opensWith_readMarkedScript marker).spares (by simp [ha]))
  rw [readMarkedScript, show '<' :: ("style".toList ++ '>' :: t) =
    '<' :: 's' :: 't' :: ("yle" ++ '>' :: t) from rfl, afterFolded?_script_of_style]
  rfl

theorem readMarkedScript_spares_script {marker a : Text} (hne : marker ≠ [])
    (hhead : marker.head? ≠ some '>') (ha : '<' ∉ a) :
    Recogniser.Spares (readMarkedScript marker) (scriptElement a) := by
  rw [scriptElement_eq]
  exact spares_element (opensWith_readMarkedScript marker) (readMarkedScript_slash marker)
    (readMarkedScript_bare hne hhead) (by decide)
    ((opensWith_readMarkedScript marker).spares (by simp [ha]))

/-! ## Passes over a page with a block -/

theorem clearHoles_element {name a : Text} (hname : '{' ∉ name)
    (ha : readFirst? readAnyHole a = none) (before after : Text) :
    clearHoles (before ++ (element name a ++ after)) =
      clearHoles before ++ (element name a ++ clearHoles after) := by
  have stops : Recogniser.StopsAt readAnyHole '<' :=
    stopsAt_readAnyHole (by decide) (by decide +kernel) (by decide) (by decide)
  have hopening : Recogniser.Spares readAnyHole (name ++ ['>', '\n']) :=
    opensWith_readAnyHole.spares (by simp [hname])
  have hclosing : Recogniser.Spares readAnyHole ('/' :: (name ++ ['>'])) :=
    opensWith_readAnyHole.spares (by simp [hname])
  have hinner := hopening.append ((spares_readAnyHole ha).append hclosing)
  rw [clearHoles, element, List.cons_append, replaceAll_append_cons _ consumes_readAnyHole stops,
    replaceAll_append_of_none _ fun u hne hu => hinner u hne hu after]
  rfl

theorem infix_stripDevScripts {markers : List Text} {before block after : Text}
    (spares : ∀ marker ∈ markers, Recogniser.Spares (readMarkedScript marker) block)
    (h : (strippedPlace? markers (before ++ (block ++ after)) before.length).isSome) :
    block <:+: stripDevScripts markers (before ++ (block ++ after)) := by
  induction markers generalizing before after with
  | nil => exact ⟨before, after, by rw [List.append_assoc]; rfl⟩
  | cons marker markers ih =>
      obtain ⟨last, hlast⟩ := Option.isSome_iff_exists.mp h
      rw [strippedPlace?, Option.bind_eq_bind, Option.bind_eq_some_iff] at hlast
      obtain ⟨n, hmoved, hlast⟩ := hlast
      obtain ⟨left, right, rfl, hpass⟩ := carried_of_moved? (consumes_readMarkedScript marker)
        (spares marker List.mem_cons_self) rfl hmoved
      rw [hpass] at hlast
      rw [stripDevScripts, List.foldl_cons, hpass]
      exact ih (fun other hother => spares other (List.mem_cons_of_mem _ hother))
        (Option.isSome_of_eq_some hlast)

theorem ne_nil_of_scriptText? {files : SiteTree} {roots : Roots} {markers : List Text}
    {reference a : Text} (h : scriptText? files roots markers reference = some a) :
    ∀ marker ∈ markers, marker ≠ [] := by
  rintro _ hmem rfl
  rw [scriptText?, if_pos] at h
  · cases h
  · rw [Bool.or_eq_true, List.any_eq_true]
    refine .inr ⟨[], hmem, ?_⟩
    cases reference <;> rfl

end Asset

namespace Environment

/-- A page with its components expanded. -/
def compiledPage (e : Environment) (page : Text) : Engine Text := do
  e.compile (← Engine.readText .utf8 (e.pagePath page)) (some page)

variable (e : Environment) (files : SiteTree)

def withStyles (html : Text) : Text :=
  replaceAll readStylesheetLink (fun _ => linked files e.assetRoots) html

def withScripts (html : Text) : Text :=
  replaceAll readScript (scripted files e.assetRoots e.markers) html

/-- The place `n` of an inlined page is in no script that is taken out and began before it. -/
def Stays (html : Text) (n : Nat) : Prop :=
  (strippedPlace? e.markers (clearHoles html) (clearHoles (html.take n)).length).isSome

instance (html : Text) (n : Nat) : Decidable (e.Stays html n) :=
  inferInstanceAs (Decidable (_ = true))

variable {e files} {page html : Text} {s : Session}

theorem exec_buildPage (hcss : e.inlineCss) (hjs : e.inlineJs)
    (hcompiled : ((e.compiledPage page).exec files s).1 = .ok html) :
    ((e.buildPage page).exec files s).1 =
      .ok (stripDevScripts e.markers
        (clearHoles (e.withScripts files (e.withStyles files html)))) := by
  have hform : e.buildPage page = (do
      let html ← e.compiledPage page
      let html ← e.inlineStylesheets html
      let html ← e.inlineScripts html
      return stripDevScripts e.markers (clearHoles html)) := by
    rw [buildPage, compiledPage, hcss, hjs]
    simp
  have hrest : Engine.Ensures files (do
      let html ← e.inlineStylesheets html
      let html ← e.inlineScripts html
      return stripDevScripts e.markers (clearHoles html))
      (· = stripDevScripts e.markers
        (clearHoles (e.withScripts files (e.withStyles files html)))) := by
    refine (ensures_inlineStylesheets e.assetRoots html).bind ?_
    rintro _ rfl
    refine (ensures_inlineScripts e.assetRoots e.markers _).bind ?_
    rintro _ rfl
    exact Engine.ensures_pure rfl
  obtain ⟨out, hout, rfl⟩ := hrest ((e.compiledPage page).exec files s).2
  rw [hform, Engine.exec_bind_of_ok hcompiled, hout]

/-- A block that an inlining pass has put in stays, once nothing from before reaches into it. -/
theorem infix_finished {before after name a : Text} (hname : '{' ∉ name)
    (ha : readFirst? readAnyHole a = none)
    (spares : ∀ marker ∈ e.markers, Recogniser.Spares (readMarkedScript marker) (element name a))
    (hstays : e.Stays (before ++ (element name a ++ after)) before.length) :
    element name a <:+:
      stripDevScripts e.markers (clearHoles (before ++ (element name a ++ after))) := by
  rw [Stays, List.take_left, clearHoles_element hname ha] at hstays
  rw [clearHoles_element hname ha]
  exact infix_stripDevScripts spares hstays

/-- Inlined blocks without tags and holes in them stand in the built page, as far as no match that
began before a block and reaches into it is replaced or taken out later. -/
theorem buildPage_keeps_blocks (hcss : e.inlineCss) (hjs : e.inlineJs)
    (hcompiled : ((e.compiledPage page).exec files s).1 = .ok html) :
    ∃ out, ((e.buildPage page).exec files s).1 = .ok out ∧
      (∀ ps tag qs a, split readStylesheetLink html = ps ++ .hit () tag :: qs →
        linkText? files e.assetRoots tag = some a → '<' ∉ a → readFirst? readAnyHole a = none →
        (∃ n, moved? (scripted files e.assetRoots e.markers)
            (split readScript (e.withStyles files html))
            (ps.flatMap (Piece.replaced fun _ => linked files e.assetRoots)).length = some n ∧
          e.Stays (e.withScripts files (e.withStyles files html)) n) →
        styleElement a <:+: out) ∧
      ∀ ps reference tag qs a,
        split readScript (e.withStyles files html) = ps ++ .hit reference tag :: qs →
        scriptText? files e.assetRoots e.markers reference = some a → '<' ∉ a →
        readFirst? readAnyHole a = none → (∀ marker ∈ e.markers, marker.head? ≠ some '>') →
        e.Stays (e.withScripts files (e.withStyles files html))
          (ps.flatMap (Piece.replaced (scripted files e.assetRoots e.markers))).length →
        scriptElement a <:+: out := by
  refine ⟨_, exec_buildPage hcss hjs hcompiled, ?_, ?_⟩
  · rintro ps tag qs a hsplit hlink hopen hholes ⟨n, hmoved, hstays⟩
    have hblock : linked files e.assetRoots tag = styleElement a := by rw [linked, hlink]; rfl
    have hstyled : e.withStyles files html = _ := replaceAll_of_split _ hsplit
    rw [hblock] at hstyled
    rw [hstyled] at hmoved
    obtain ⟨left, right, rfl, hpass⟩ := carried_of_moved? consumes_readScript
      (readScript_spares_style hopen) rfl hmoved
    have hscripted : e.withScripts files (e.withStyles files html) =
        left ++ (element "style" a ++ right) := by
      rw [withScripts, hstyled, hpass, styleElement_eq]
    rw [hscripted] at hstays ⊢
    rw [styleElement_eq]
    refine infix_finished (by decide) hholes (fun marker _ => ?_) hstays
    rw [← styleElement_eq]
    exact readMarkedScript_spares_style marker hopen
  · intro ps reference tag qs a hsplit hscript hopen hholes hheads hstays
    have hblock : scripted files e.assetRoots e.markers reference tag = element "script" a := by
      rw [scripted, hscript, ← scriptElement_eq]
      rfl
    have hscripted : e.withScripts files (e.withStyles files html) = _ :=
      replaceAll_of_split _ hsplit
    rw [hblock] at hscripted
    rw [hscripted] at hstays ⊢
    rw [scriptElement_eq]
    refine infix_finished (by decide) hholes (fun marker hmem => ?_) hstays
    rw [← scriptElement_eq]
    exact readMarkedScript_spares_script (ne_nil_of_scriptText? hscript marker hmem)
      (hheads marker hmem) hopen

/-- Inlining replaces a tag of the page by the block, whose text holds no tag. -/
def Inlines (e : Environment) (files : SiteTree) (html block : Text) : Prop :=
  (∃ tag a, .hit () tag ∈ split readStylesheetLink html ∧
    linkText? files e.assetRoots tag = some a ∧ '<' ∉ a ∧ block = styleElement a) ∨
  ∃ reference tag a, .hit reference tag ∈ split readScript (e.withStyles files html) ∧
    scriptText? files e.assetRoots e.markers reference = some a ∧ '<' ∉ a ∧
    block = scriptElement a

/-- A block is inlined in a page, and the built page does not hold it. -/
def LosesBlock (e : Environment) (files : SiteTree) (page block : Text) : Prop :=
  ∃ html out, ((e.compiledPage page).exec files Session.start).1.toOption = some html ∧
    e.Inlines files html block ∧
    ((e.buildPage page).exec files Session.start).1.toOption = some out ∧ ¬block <:+: out

end Environment

section Home

def homeLink : Text := "<link rel=\"stylesheet\" href=\"a.css\">"

def holeLink : Text := "<link rel=\"stylesheet\" href=\"c.css\">"

def homeScript : Text := "<script src=\"b.js\"></script>"

def homePage : Text := homeLink ++ homeScript

def devPage : Text := "<script data-hmr=\"@vite\">" ++ homeLink ++ "</script>"

/-- A site of which one page holds a link and a script side by side, one holds the link inside a
script of a development server, and one links to a stylesheet with a hole. -/
def homeFiles : SiteTree :=
  ⟨.folder [("src", .folder [
    ("a.css", textFile "p\x7b\x7d"),
    ("b.js", textFile "go(1>0)"),
    ("c.css", textFile "p\x7b\x7bx\x7d\x7d"),
    ("dev.html", textFile devPage),
    ("hole.html", textFile holeLink),
    ("index.html", textFile homePage)])], []⟩

def home : Environment := .ofRoot (Path.ofText "src") none

theorem split_homePage :
    split readStylesheetLink homePage = .hit () homeLink :: homeScript.map .gap := by
  decide +kernel

theorem linkText?_home :
    linkText? homeFiles home.assetRoots homeLink = some ("p\x7b\x7d" : Text) := by
  decide +kernel

theorem withStyles_home :
    home.withStyles homeFiles homePage = styleElement "p\x7b\x7d" ++ homeScript := by
  rw [Environment.withStyles, replaceAll, split_homePage, List.flatMap_cons, Piece.replaced, linked,
    linkText?_home]
  rfl

theorem split_withStyles_home :
    split readScript (home.withStyles homeFiles homePage) =
      (styleElement "p\x7b\x7d").map .gap ++ [.hit ("b.js" : Text) homeScript] := by
  rw [withStyles_home]
  decide +kernel

theorem withScripts_home :
    home.withScripts homeFiles (home.withStyles homeFiles homePage) =
      styleElement "p\x7b\x7d" ++ scriptElement "go(1>0)" := by
  rw [Environment.withScripts, replaceAll, split_withStyles_home]
  decide +kernel

theorem buildPage_keeps_blocks_home :
    ∃ out, ((home.buildPage "index.html").exec homeFiles Session.start).1 = .ok out ∧
      styleElement "p\x7b\x7d" <:+: out ∧ scriptElement "go(1>0)" <:+: out := by
  have hcompiled : ((home.compiledPage "index.html").exec homeFiles Session.start).1 =
      .ok homePage :=
    eq_ok_of_toOption (by decide +kernel)
  obtain ⟨out, hout, hstyle, hscript⟩ := Environment.buildPage_keeps_blocks rfl rfl hcompiled
  rw [split_withStyles_home, withScripts_home] at hstyle hscript
  refine ⟨out, hout, ?_, ?_⟩
  · exact hstyle [] homeLink _ _ split_homePage linkText?_home (by decide) (by decide)
      ⟨0, by decide +kernel, by decide +kernel⟩
  · exact hscript _ "b.js" homeScript [] _ rfl (by decide +kernel) (by decide) (by decide)
      (by decide) (by decide +kernel)

/-- A block is lost with the script that a marker takes out around it, with a hole in it, or by a
marker that begins with the end of a tag. -/
theorem buildPage_loses_blocks :
    home.LosesBlock homeFiles "dev.html" (styleElement "p\x7b\x7d") ∧
      home.LosesBlock homeFiles "hole.html" (styleElement "p\x7b\x7bx\x7d\x7d") ∧
      Environment.LosesBlock { home with markers := [">\ngo"] } homeFiles "index.html"
        (scriptElement "go(1>0)") := by
  refine ⟨⟨devPage, [], by decide +kernel, .inl ⟨homeLink, _, by decide +kernel, linkText?_home,
    by decide, rfl⟩, by decide +kernel, by decide +kernel⟩, ?_, ?_⟩
  · exact ⟨holeLink, "<style>\np\n</style>", by decide +kernel,
      .inl ⟨holeLink, _, by decide +kernel, by decide +kernel, by decide, rfl⟩, by decide +kernel,
      by decide +kernel⟩
  · refine ⟨homePage, styleElement "p\x7b\x7d", by decide +kernel,
      .inr ⟨"b.js", homeScript, _, ?_, by decide +kernel, by decide, rfl⟩, by decide +kernel,
      by decide +kernel⟩
    exact split_withStyles_home ▸ List.mem_append_right _ (List.mem_singleton.mpr rfl)

end Home

end StaticSite
