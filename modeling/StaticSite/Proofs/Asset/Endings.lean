import Mathlib.Tactic.Choose
import StaticSite.Asset.Inline
import StaticSite.Proofs.Asset.Reading
import StaticSite.Proofs.Compile.Ensures
import StaticSite.Proofs.Component.Probe
import StaticSite.Proofs.Text.Matches

/-!
# How inlining ends for each tag

A tag is passed over, or its asset is looked up. A look-up ends with the text of the first
candidate that is a file, or with one warning. Whatever goes wrong with one tag, inlining goes on
with the next and gives back everything else as it was.
-/

namespace StaticSite.Asset

open Text Engine

variable {files : SiteTree}

/-! ## Loading an asset -/

/-- The path can be looked at, and there is no file. -/
def NoFile (files : SiteTree) (p : Path) : Prop :=
  seen files p = .ok none ∨ ∃ entries, seen files p = .ok (some (.folder entries))

/-- The path can be looked at, and leads to a file with this content. -/
def FileAt (files : SiteTree) (p : Path) (content : Content) : Prop :=
  '\x00' ∉ p.text ∧ files.look p = .ok (.file content)

/-- How the search for the first file among candidates ends. -/
inductive Search (files : SiteTree) : List Path → Except Fault (Option Path) → Prop
  | found {before after : List Path} {p : Path} {content : Content}
      (none_before : ∀ q ∈ before, NoFile files q) (file : FileAt files p content) :
      Search files (before ++ p :: after) (.ok (some p))
  | missed {ps : List Path} (nowhere : ∀ q ∈ ps, NoFile files q) : Search files ps (.ok none)
  | refused {before after : List Path} {p : Path} {cause : FileCause}
      (none_before : ∀ q ∈ before, NoFile files q) (refuses : Refuses files p cause) :
      Search files (before ++ p :: after) (.error (.file cause p))

theorem Search.skip {p : Path} {ps : List Path} {result : Except Fault (Option Path)}
    (hp : NoFile files p) (h : Search files ps result) : Search files (p :: ps) result := by
  cases h with
  | found hbefore hfile => exact .found (List.forall_mem_cons.mpr ⟨hp, hbefore⟩) hfile
  | missed hnowhere => exact .missed (List.forall_mem_cons.mpr ⟨hp, hnowhere⟩)
  | refused hbefore hrefuses => exact .refused (List.forall_mem_cons.mpr ⟨hp, hbefore⟩) hrefuses

theorem looks_firstFile? (ps : List Path) :
    ∃ result, Looks files (firstFile? ps) result ∧ Search files ps result := by
  induction ps with
  | nil => exact ⟨.ok none, fun _ => rfl, .missed (by simp)⟩
  | cons p ps ih =>
      obtain ⟨result, hrest, hsearch⟩ := ih
      have step (s : Session) : (firstFile? (p :: ps)).exec files s =
          match (seen files p).map fun n => (n.map fun n => !n.isFolder).getD false with
          | .ok true => (.ok (some p), s)
          | .ok false => (result, s)
          | .error fault => (.error fault, s) := by
        rw [firstFile?, exec_bind, looks_isFile s]
        cases (seen files p).map fun n => (n.map fun n => !n.isFolder).getD false with
        | error fault => rfl
        | ok file =>
            cases file with
            | true => rfl
            | false => exact hrest s
      cases hseen : seen files p with
      | error fault =>
          obtain ⟨cause, hrefuses, rfl⟩ := seen_error_iff.mp hseen
          exact ⟨_, fun s => by rw [step, hseen]; rfl,
            @Search.refused files [] ps p cause (by simp) hrefuses⟩
      | ok there =>
          rcases there with _ | content | entries
          · exact ⟨result, fun s => by rw [step, hseen]; rfl, hsearch.skip (.inl hseen)⟩
          · exact ⟨.ok (some p), fun s => by rw [step, hseen]; rfl,
              @Search.found files [] ps p content (by simp) (seen_some hseen)⟩
          · exact ⟨result, fun s => by rw [step, hseen]; rfl, hsearch.skip (.inr ⟨entries, hseen⟩)⟩

/-- How the loading of an asset from its candidates ends. -/
inductive Load (files : SiteTree) (reference : Text) : List Path → Except Fault Text → Prop
  | read {before after : List Path} {p : Path} {content : Content} {s : Text}
      (none_before : ∀ q ∈ before, NoFile files q) (file : FileAt files p content)
      (readable : files.read p = .ok (.file content))
      (decoded : Encoding.utf8.decode content.toBytes = .ok s) :
      Load files reference (before ++ p :: after) (.ok (unifyLineEnds s))
  | undecodable {before after : List Path} {p : Path} {content : Content} {fault : DecodeFault}
      (none_before : ∀ q ∈ before, NoFile files q) (file : FileAt files p content)
      (readable : files.read p = .ok (.file content))
      (broken : Encoding.utf8.decode content.toBytes = .error (.undecodable fault)) :
      Load files reference (before ++ p :: after) (.error (.undecodable fault))
  /-- The file is there, but the machine does not let it be read. -/
  | unreadable {before after : List Path} {p : Path} {content : Content} {cause : FileCause}
      (none_before : ∀ q ∈ before, NoFile files q) (file : FileAt files p content)
      (denied : files.read p = .error cause) :
      Load files reference (before ++ p :: after) (.error (.file cause p))
  | missed {ps : List Path} (nowhere : ∀ q ∈ ps, NoFile files q) :
      Load files reference ps (.error (.assetNotFound reference (ps.map Path.text)))
  | refused {before after : List Path} {p : Path} {cause : FileCause}
      (none_before : ∀ q ∈ before, NoFile files q) (refuses : Refuses files p cause) :
      Load files reference (before ++ p :: after) (.error (.file cause p))

theorem exists_undecodable {bytes : List UInt8} {fault : CodecFault}
    (h : Encoding.utf8.decode bytes = .error fault) : ∃ cause, fault = .undecodable cause := by
  rw [Encoding.decode] at h
  cases hdecode : decodeUtf8 0 none bytes with
  | ok s =>
      rw [hdecode] at h
      cases h
  | error cause =>
      rw [hdecode] at h
      cases h
      exact ⟨cause, rfl⟩

/-- What comes of the text of the first candidate that is a file. -/
theorem load_textOf (reference : Text) {before : List Path} {p : Path} {content : Content}
    (hbefore : ∀ q ∈ before, NoFile files q) (hfile : FileAt files p content)
    (after : List Path) : Load files reference (before ++ p :: after) (textOf files .utf8 p) := by
  cases hread : files.read p with
  | error cause =>
      rw [textOf_of_denied hfile.1 hread]
      exact .unreadable hbefore hfile hread
  | ok n =>
      obtain rfl : n = .file content :=
        Except.ok.inj ((Tree.look_of_read hread).symm.trans hfile.2)
      rw [textOf_of_read hfile.1 hread, decoded]
      cases hdecode : Encoding.utf8.decode content.toBytes with
      | ok s => exact .read hbefore hfile hread hdecode
      | error fault =>
          obtain ⟨cause, rfl⟩ := exists_undecodable hdecode
          exact .undecodable hbefore hfile hread hdecode

theorem looks_load (reference : Text) (ps : List Path) :
    ∃ result, Looks files (do readText .utf8 (← locate reference ps)) result ∧
      Load files reference ps result := by
  obtain ⟨found, hlooks, hsearch⟩ := @looks_firstFile? files ps
  cases hsearch with
  | refused hbefore hrefuses =>
      refine ⟨_, fun s => ?_, .refused hbefore hrefuses⟩
      simp only [locate, exec_bind, hlooks s]
  | missed hnowhere =>
      refine ⟨_, fun s => ?_, .missed hnowhere⟩
      simp only [locate, exec_bind, hlooks s]
      rfl
  | @found _ after p content hbefore hfile =>
      have hread : Looks files (readText .utf8 p) (textOf files .utf8 p) := looks_readText .utf8
      refine ⟨_, fun s => ?_, load_textOf reference hbefore hfile after⟩
      simp only [locate, exec_bind, exec_pure, hlooks s, hread s]

/-! ## The ending of a tag -/

/-- What comes of a tag. -/
inductive Ending
  /-- The tag is left alone, and no file is looked at. -/
  | passed
  | inlined (asset : Text)
  | warned (message : Text)

namespace Ending

/-- The text of the asset, if there is one to put in. -/
def asset? : Ending → Option Text
  | inlined asset => some asset
  | _ => none

/-- What stands in the place of the tag. -/
def written (element : Text → Text) (ending : Ending) (tag : Text) : Text :=
  (ending.asset?.map element).getD tag

def records : Ending → List LogRecord
  | warned message => [⟨.warning, .assets, message⟩]
  | _ => []

/-- The ending of a tag whose asset is looked up. -/
def ofLoad (reference : Text) : Except Fault Text → Ending
  | .ok asset => inlined asset
  | .error (.assetNotFound missing tried) => warned (Fault.message (.assetNotFound missing tried))
  | .error fault => warned ("Could not inline " ++ reference ++ ": " ++ fault.message)

theorem asset?_ofLoad (reference : Text) (result : Except Fault Text) :
    (ofLoad reference result).asset? = result.toOption := by
  cases result with
  | ok asset => rfl
  | error fault => cases fault <;> rfl

end Ending

/-- How a stylesheet link ends. -/
inductive LinkEnds (files : SiteTree) (roots : Roots) (tag : Text) : Ending → Prop
  | absent (h : href? tag = none) : LinkEnds files roots tag .passed
  | external {reference : Text} (h : href? tag = some reference)
      (outside : isExternal reference) : LinkEnds files roots tag .passed
  | looked {reference : Text} {result : Except Fault Text} (h : href? tag = some reference)
      (inside : ¬isExternal reference)
      (load : Load files reference (roots.stylesheetCandidates reference) result) :
      LinkEnds files roots tag (.ofLoad reference result)

/-- How a script with this reference ends. -/
inductive ScriptEnds (files : SiteTree) (roots : Roots) (markers : List Text) (reference : Text) :
    Ending → Prop
  | external (outside : isExternal reference) : ScriptEnds files roots markers reference .passed
  | marked {marker : Text} (mem : marker ∈ markers) (marks : Text.hasPart marker reference) :
      ScriptEnds files roots markers reference .passed
  | looked {result : Except Fault Text} (inside : ¬isExternal reference)
      (unmarked : ∀ marker ∈ markers, ¬Text.hasPart marker reference)
      (load : Load files reference (roots.scriptCandidates reference) result) :
      ScriptEnds files roots markers reference (.ofLoad reference result)

theorem logs_read? {reference : Text} (ps : List Path) :
    ∃ result, Load files reference ps result ∧
      Logs files (read? reference ps) result.toOption (Ending.ofLoad reference result).records := by
  obtain ⟨result, hlooks, hload⟩ := @looks_load files reference ps
  refine ⟨result, hload, ?_⟩
  have hstops : ∀ fault, result = .error fault → fault.stops = false := by
    rintro fault rfl
    cases hload <;> rfl
  have hattempt := hlooks.logs_attempt hstops
  unfold read?
  cases hload with
  | read => exact hattempt.bind (logs_pure _)
  | undecodable => exact hattempt.bind ((logs_record _ _ _).bind (logs_pure _))
  | unreadable => exact hattempt.bind ((logs_record _ _ _).bind (logs_pure _))
  | missed => exact hattempt.bind ((logs_record _ _ _).bind (logs_pure _))
  | refused => exact hattempt.bind ((logs_record _ _ _).bind (logs_pure _))

theorem logs_inlineLink (roots : Roots) (tag : Text) :
    ∃ ending, LinkEnds files roots tag ending ∧
      Logs files (inlineLink roots tag) (ending.written styleElement tag) ending.records := by
  unfold inlineLink
  cases hhref : href? tag with
  | none => exact ⟨.passed, .absent hhref, logs_pure _⟩
  | some reference =>
      simp only
      split
      · rename_i houtside
        exact ⟨.passed, .external hhref houtside, logs_pure _⟩
      · rename_i hinside
        obtain ⟨result, hload, hlogs⟩ :=
          @logs_read? files reference (roots.stylesheetCandidates reference)
        refine ⟨_, .looked hhref hinside hload, ?_⟩
        rw [Ending.written, Ending.asset?_ofLoad]
        exact hlogs.map _

theorem logs_inlineScript (roots : Roots) (markers : List Text) (reference : Text) :
    ∃ ending, ScriptEnds files roots markers reference ending ∧ ∀ tag,
      Logs files (inlineScript roots markers reference tag) (ending.written scriptElement tag)
        ending.records := by
  unfold inlineScript
  by_cases houtside : isExternal reference
  · refine ⟨.passed, .external houtside, fun tag => ?_⟩
    rw [houtside, Bool.true_or, if_pos rfl]
    exact logs_pure tag
  · by_cases hmarked : markers.any (Text.hasPart · reference)
    · obtain ⟨marker, hmem, hmarks⟩ := List.any_eq_true.mp hmarked
      refine ⟨.passed, .marked hmem hmarks, fun tag => ?_⟩
      rw [hmarked, Bool.or_true, if_pos rfl]
      exact logs_pure tag
    · obtain ⟨result, hload, hlogs⟩ :=
        @logs_read? files reference (roots.scriptCandidates reference)
      have hunmarked : ∀ marker ∈ markers, ¬Text.hasPart marker reference :=
        fun marker hmem hmarks => hmarked (List.any_eq_true.mpr ⟨marker, hmem, hmarks⟩)
      refine ⟨_, .looked houtside hunmarked hload, fun tag => ?_⟩
      rw [if_neg (by simp [houtside, hmarked]), Ending.written, Ending.asset?_ofLoad]
      exact hlogs.map _

/-! ## A pass over a page -/

section Pieces

variable {α : Type} {read : Recogniser α} {write : α → Text → Engine Text} {put : α → Text → Text}
  {records : α → Text → List LogRecord}

theorem logs_pieces
    (h : ∀ a source, Logs files (write a source) (put a source) (records a source))
    (ps : List (Piece α)) :
    Logs files (ps.mapM fun
      | .gap c => pure [c]
      | .hit a source => write a source) (ps.map (Piece.replaced put))
      ((ps.filterMap Piece.hit?).flatMap fun m => records m.1 m.2) := by
  induction ps with
  | nil => exact logs_pure []
  | cons p ps ih =>
      rw [List.mapM_cons]
      cases p with
      | gap c => exact (logs_pure [c]).bind (ih.map _)
      | hit a source => exact (h a source).bind (ih.map _)

theorem logs_replaceM
    (h : ∀ a source, Logs files (write a source) (put a source) (records a source)) (s : Text) :
    Logs files (replaceM read write s) (replaceAll read put s)
      ((hits read s).flatMap fun m => records m.1 m.2) := by
  rw [replaceAll, List.flatMap]
  exact (logs_pieces h (split read s)).map _

end Pieces

theorem logs_inlineStylesheets (files : SiteTree) (roots : Roots) :
    ∃ ending : Text → Ending, (∀ tag, LinkEnds files roots tag (ending tag)) ∧
      ∀ html, Logs files (inlineStylesheets roots html)
        (replaceAll readStylesheetLink (fun _ tag => (ending tag).written styleElement tag) html)
        ((hits readStylesheetLink html).flatMap fun m => (ending m.2).records) := by
  choose ending hends hlogs using @logs_inlineLink files roots
  exact ⟨ending, hends, logs_replaceM fun _ tag => hlogs tag⟩

theorem logs_inlineScripts (files : SiteTree) (roots : Roots) (markers : List Text) :
    ∃ ending : Text → Ending,
      (∀ reference, ScriptEnds files roots markers reference (ending reference)) ∧
      ∀ html, Logs files (inlineScripts roots markers html)
        (replaceAll readScript
          (fun reference tag => (ending reference).written scriptElement tag) html)
        ((hits readScript html).flatMap fun m => (ending m.1).records) := by
  choose ending hends hlogs using @logs_inlineScript files roots markers
  exact ⟨ending, hends, logs_replaceM hlogs⟩

/-- Inlining ends well for every page, and a match is all that it changes. What becomes of a match
is one ending for each tag, with a block in its place if the first candidate that is a file can be
read, and otherwise the tag as it stands. The log has one warning for each match of which the asset
was looked up in vain, in the order of the matches. -/
theorem inlining_is_soft (files : SiteTree) (roots : Roots) (markers : List Text) :
    (∃ ending : Text → Ending, (∀ tag, LinkEnds files roots tag (ending tag)) ∧
      ∀ html, (split readStylesheetLink html).flatMap Piece.source = html ∧
        Logs files (inlineStylesheets roots html)
          (replaceAll readStylesheetLink (fun _ tag => (ending tag).written styleElement tag) html)
          ((hits readStylesheetLink html).flatMap fun m => (ending m.2).records)) ∧
    ∃ ending : Text → Ending,
      (∀ reference, ScriptEnds files roots markers reference (ending reference)) ∧
      ∀ html, (split readScript html).flatMap Piece.source = html ∧
        Logs files (inlineScripts roots markers html)
          (replaceAll readScript
            (fun reference tag => (ending reference).written scriptElement tag) html)
          ((hits readScript html).flatMap fun m => (ending m.1).records) := by
  obtain ⟨linkEnding, hlink, hstyles⟩ := logs_inlineStylesheets files roots
  obtain ⟨scriptEnding, hscript, hscripts⟩ := logs_inlineScripts files roots markers
  exact ⟨⟨linkEnding, hlink, fun html => ⟨source_split consumes_readStylesheetLink html,
    hstyles html⟩⟩, scriptEnding, hscript, fun html => ⟨source_split consumes_readScript html,
    hscripts html⟩⟩

end StaticSite.Asset
