import StaticSite.Proofs.Asset.Endings

/-!
# What inlining puts in

Inlining always ends with a text, and the text depends on the files alone: each match is replaced
by the first candidate that is a file, provided the file can be read.
-/

namespace StaticSite

open Text Engine

def textFile (s : Text) : Node Content := .file (.bytes (encodeUtf8 s))

namespace Asset

/-- The text of the first candidate that is a file. A candidate that cannot be looked at ends the
search. -/
def loaded? (files : SiteTree) : List Path → Option Text
  | [] => none
  | p :: ps =>
      match seen files p with
      | .ok (some (.file _)) => (textOf files .utf8 p).toOption
      | .ok _ => loaded? files ps
      | .error _ => none

/-- The text that takes the place of a link, if the link is replaced. -/
def linkText? (files : SiteTree) (roots : Roots) (tag : Text) : Option Text :=
  match href? tag with
  | none => none
  | some reference =>
      if isExternal reference then none
      else loaded? files (roots.stylesheetCandidates reference)

/-- The text that takes the place of a script, if the script is replaced. -/
def scriptText? (files : SiteTree) (roots : Roots) (markers : List Text) (reference : Text) :
    Option Text :=
  if isExternal reference || markers.any (Text.hasPart · reference) then none
  else loaded? files (roots.scriptCandidates reference)

def linked (files : SiteTree) (roots : Roots) (tag : Text) : Text :=
  ((linkText? files roots tag).map styleElement).getD tag

def scripted (files : SiteTree) (roots : Roots) (markers : List Text) (reference tag : Text) :
    Text :=
  ((scriptText? files roots markers reference).map scriptElement).getD tag

variable {files : SiteTree}

/-! ## The endings of tags -/

theorem loaded?_append {before : List Path} (h : ∀ q ∈ before, NoFile files q) (ps : List Path) :
    loaded? files (before ++ ps) = loaded? files ps := by
  induction before with
  | nil => rfl
  | cons q before ih =>
      obtain ⟨hq, hbefore⟩ := List.forall_mem_cons.mp h
      rw [List.cons_append, loaded?]
      rcases hq with hseen | ⟨entries, hseen⟩
      · rw [hseen]
        exact ih hbefore
      · rw [hseen]
        exact ih hbefore

theorem loaded?_of_file {p : Path} {content : Content} (h : FileAt files p content)
    (ps : List Path) : loaded? files (p :: ps) = (textOf files .utf8 p).toOption := by
  rw [loaded?, seen_of_look h.1 h.2]

theorem Load.toOption {reference : Text} {ps : List Path} {result : Except Fault Text}
    (h : Load files reference ps result) : result.toOption = loaded? files ps := by
  cases h with
  | read hbefore hfile hread hdecoded =>
      rw [loaded?_append hbefore, loaded?_of_file hfile, textOf_of_read hfile.1 hread, decoded,
        hdecoded]
  | undecodable hbefore hfile hread hbroken =>
      rw [loaded?_append hbefore, loaded?_of_file hfile, textOf_of_read hfile.1 hread, decoded,
        hbroken]
      rfl
  | unreadable hbefore hfile hdenied =>
      rw [loaded?_append hbefore, loaded?_of_file hfile, textOf_of_denied hfile.1 hdenied]
  | missed hnowhere =>
      have hnone := loaded?_append hnowhere []
      rw [List.append_nil] at hnone
      rw [hnone]
      rfl
  | refused hbefore hrefuses =>
      rw [loaded?_append hbefore, loaded?, seen_error_iff.mpr ⟨_, hrefuses, rfl⟩]
      rfl

theorem LinkEnds.asset? {roots : Roots} {tag : Text} {ending : Ending}
    (h : LinkEnds files roots tag ending) : ending.asset? = linkText? files roots tag := by
  unfold linkText?
  cases h with
  | absent hhref => rw [hhref]; rfl
  | external hhref houtside =>
      rw [hhref]
      simp only [houtside, if_true]
      rfl
  | looked hhref hinside hload =>
      rw [hhref, Ending.asset?_ofLoad, hload.toOption]
      simp only [hinside, Bool.false_eq_true, if_false]

theorem ScriptEnds.asset? {roots : Roots} {markers : List Text} {reference : Text}
    {ending : Ending} (h : ScriptEnds files roots markers reference ending) :
    ending.asset? = scriptText? files roots markers reference := by
  unfold scriptText?
  cases h with
  | external houtside => rw [houtside, Bool.true_or, if_pos rfl]; rfl
  | marked hmem hmarks =>
      rw [List.any_eq_true.mpr ⟨_, hmem, hmarks⟩, Bool.or_true, if_pos rfl]
      rfl
  | looked hinside hunmarked hload =>
      have hany : ¬markers.any (Text.hasPart · reference) := by simpa using hunmarked
      rw [if_neg (by simp [hinside, hany]), Ending.asset?_ofLoad, hload.toOption]

theorem ensures_inlineStylesheets (roots : Roots) (html : Text) :
    Ensures files (inlineStylesheets roots html)
      (· = replaceAll readStylesheetLink (fun _ => linked files roots) html) := by
  obtain ⟨ending, hends, hlogs⟩ := logs_inlineStylesheets files roots
  have hput : (fun _ : Unit => linked files roots) =
      fun _ tag => (ending tag).written styleElement tag := by
    funext _ tag
    rw [linked, Ending.written, (hends tag).asset?]
  rw [hput]
  exact (hlogs html).ensures

theorem ensures_inlineScripts (roots : Roots) (markers : List Text) (html : Text) :
    Ensures files (inlineScripts roots markers html)
      (· = replaceAll readScript (scripted files roots markers) html) := by
  obtain ⟨ending, hends, hlogs⟩ := logs_inlineScripts files roots markers
  have hput : scripted files roots markers =
      fun reference tag => (ending reference).written scriptElement tag := by
    funext reference tag
    rw [scripted, Ending.written, (hends reference).asset?]
  rw [hput]
  exact (hlogs html).ensures

end Asset

end StaticSite
