import StaticSite.Proofs.Component.Listing
import StaticSite.Proofs.Component.Reach
import StaticSite.Proofs.Component.SearchOrder
import StaticSite.Proofs.Files.Walk
import StaticSite.Site.Environment

/-!
# How often a look-up visits a file

Folders go through their bases once, whatever they meet there. So a look-up runs a module at most
once for each base that leads to it, and warns of a markup file at most as often. Nothing keeps two
bases from leading to one file: the search paths of an environment may be the same folder.
-/

namespace StaticSite

open Engine

/-- What is done last leaves the session as it is. -/
theorem Engine.session_bind {α β : Type} {files : SiteTree} {act : Engine α} {next : α → Engine β}
    (h : ∀ a s, ((next a).exec files s).2 = s) (s : Session) :
    ((act >>= next).exec files s).2 = (act.exec files s).2 := by
  rw [exec_bind]
  cases act.exec files s with
  | mk result after =>
      cases result with
      | ok a => exact h a after
      | error fault => rfl

namespace Folders

section Visits

variable (f : Folders) (reenter : Reentry) (files : SiteTree) (identifier : Text)

/-- What the look for a markup file at a path does to the session, with the paths that it warns
of. -/
inductive Warns (p : Path) (s : Session) : List Path → Session → Prop
  | quiet : Warns p s [] s
  | unreadable {content : Content} {fault : Fault} (h : probe files p = .ok (some content))
      (htext : textOf files f.encoding p = .error fault) (hfault : fault.isFileFault) :
      Warns p s [p] { s with log := s.log ++ [unreadable p fault] }

/-- What the look for a producer at a path does to the session, with the paths of which it runs
the module. -/
inductive Executes (p : Path) (s : Session) : List Path → Session → Prop
  | nothing : Executes p s [] s
  | module {module : Module} {kept : KeptFiles}
      (h : Loading.loaded files f.runtime p = .ready module kept) :
      Executes p s [p] ((execute reenter identifier p module).exec files
        { s with bytecode := s.bytecode ++ kept }).2

/-- A search that looks in bases one after another and may end before the last. The lists are the
paths that it warns of, and those of which it runs the modules. -/
inductive Visits : List Path → Session → List Path → List Path → Session → Prop
  | stop (bases : List Path) (s : Session) : Visits bases s [] [] s
  | visit {base : Path} {bases warned ran moreWarned moreRan : List Path} {s t u v : Session}
      (hwarns : Warns f files (f.markupPath base identifier) s warned t)
      (hexecutes : Executes f reenter files identifier (f.producerPath base identifier) t ran u)
      (hrest : Visits bases u moreWarned moreRan v) :
      Visits (base :: bases) s (warned ++ moreWarned) (ran ++ moreRan) v

end Visits

variable {f : Folders} {reenter : Reentry} {files : SiteTree} {identifier : Text} {p base : Path}
  {bases warned ran : List Path} {s t u : Session}

/-! ## What a search comes to -/

theorem exists_warns (f : Folders) (files : SiteTree) (p : Path) (s : Session) :
    ∃ warned, Warns f files p s warned ((f.readMarkup p).exec files s).2 := by
  cases hprobe : probe files p with
  | error fault =>
      obtain ⟨cause, hrefused, rfl⟩ := probe_eq_error_iff.mp hprobe
      have hfile : Looks files (Access.direct.isFile p) _ := looks_isFile
      unfold readMarkup readMarkupVia
      rw [exec_bind, hfile s, seen_error_iff.mpr ⟨cause, hrefused, rfl⟩]
      exact ⟨[], .quiet⟩
  | ok found =>
      cases found with
      | none =>
          rw [exec_readMarkup_of_unread (.absent hprobe)]
          exact ⟨[], .quiet⟩
      | some content =>
          rw [exec_readMarkup hprobe]
          cases htext : textOf files f.encoding p with
          | ok markup => exact ⟨[], .quiet⟩
          | error fault =>
              cases hfault : fault.isFileFault with
              | true =>
                  simp only [hfault, if_true]
                  exact ⟨[p], .unreadable hprobe htext hfault⟩
              | false =>
                  simp only [hfault]
                  exact ⟨[], .quiet⟩

theorem exists_executes (f : Folders) (reenter : Reentry) (files : SiteTree) (identifier : Text)
    (p : Path) (s : Session) :
    ∃ ran, Executes f reenter files identifier p s ran
      ((f.loadProducer reenter identifier p).exec files s).2 := by
  have hlooks : Looks files (Loading.ofFile .direct f.runtime p) _ := Loading.looks_ofFile p
  unfold loadProducer loadProducerVia
  rw [exec_bind, hlooks s]
  cases hloaded : Loading.loaded files f.runtime p with
  | ready module kept => exact ⟨[p], .module hloaded⟩
  | _ => exact ⟨[], .nothing⟩

/-- Looking in one base looks once for its markup and after that at most once for its producer. -/
theorem exists_visit (f : Folders) (reenter : Reentry) (files : SiteTree) (identifier : Text)
    (base : Path) (s : Session) :
    ∃ warned ran t, Warns f files (f.markupPath base identifier) s warned t ∧
      Executes f reenter files identifier (f.producerPath base identifier) t ran
        ((f.resolveAt reenter identifier base).exec files s).2 := by
  obtain ⟨warned, hwarns⟩ := exists_warns f files (f.markupPath base identifier) s
  have hfile : Looks files (Access.direct.isFile (f.producerPath base identifier)) _ :=
    looks_isFile
  unfold readMarkup at hwarns
  unfold resolveAt resolveAtVia
  rw [exec_bind]
  cases hmarkup : (readMarkupVia .direct f (f.markupPath base identifier)).exec files s with
  | mk result t =>
      rw [hmarkup] at hwarns
      cases result with
      | error fault => exact ⟨warned, [], t, hwarns, .nothing⟩
      | ok markup =>
          cases markup with
          | some markup => exact ⟨warned, [], t, hwarns, .nothing⟩
          | none =>
              simp only [exec_bind, hfile t]
              cases seen files (f.producerPath base identifier) with
              | error fault => exact ⟨warned, [], t, hwarns, .nothing⟩
              | ok there =>
                  simp only [Except.map]
                  cases (there.map fun n => !n.isFolder).getD false with
                  | false => exact ⟨warned, [], t, hwarns, .nothing⟩
                  | true =>
                      obtain ⟨ran, hexecutes⟩ := exists_executes f reenter files identifier
                        (f.producerPath base identifier) t
                      refine ⟨warned, ran, t, hwarns, ?_⟩
                      simp only [if_true]
                      rw [session_bind fun _ _ => rfl]
                      exact hexecutes

theorem exists_visits (f : Folders) (reenter : Reentry) (files : SiteTree) (identifier : Text)
    (bases : List Path) (s : Session) :
    ∃ warned ran, Visits f reenter files identifier bases s warned ran
      ((f.search reenter identifier bases).exec files s).2 := by
  induction bases generalizing s with
  | nil => exact ⟨[], [], .stop [] s⟩
  | cons base bases ih =>
      obtain ⟨warned, ran, t, hwarns, hexecutes⟩ :=
        exists_visit f reenter files identifier base s
      have hlast := Visits.visit hwarns hexecutes (.stop bases _)
      rw [search_cons, orThen, exec_bind, exec_visit]
      cases noticed ((f.resolveAt reenter identifier base).exec files s).1 with
      | error fault => exact ⟨_, _, hlast⟩
      | ok finding =>
          cases finding with
          | found source => exact ⟨_, _, hlast⟩
          | missed held =>
              obtain ⟨moreWarned, moreRan, hrest⟩ :=
                ih ((f.resolveAt reenter identifier base).exec files s).2
              refine ⟨warned ++ moreWarned, ran ++ moreRan, .visit hwarns hexecutes ?_⟩
              simp only [goOn]
              rw [session_bind fun _ _ => rfl]
              exact hrest

/-- However a look-up ends, it has visited some of the first bases once each. -/
theorem exists_visits_resolve (f : Folders) (reenter : Reentry) (files : SiteTree)
    (identifier : Text) (s : Session) :
    ∃ warned ran, Visits f reenter files identifier f.paths s warned ran
      ((f.resolve reenter identifier).exec files s).2 := by
  have hconclude : ∀ r s, ((conclude (f.absent identifier) r).exec files s).2 = s := by
    intro r s
    cases r with
    | found source => rfl
    | missed held =>
        cases held with
        | some failure => rfl
        | none =>
            have hlist : Looks files (listVia .direct f) _ := looks_list f
            rw [conclude, absent, absentVia, session_bind fun _ _ => rfl, hlist s]
  rw [resolve_eq, session_bind hconclude]
  exact exists_visits f reenter files identifier f.paths s

/-! ## Counting -/

theorem Warns.sublist (h : Warns f files p s warned t) : warned.Sublist [p] := by
  cases h with
  | quiet => exact List.nil_sublist _
  | unreadable => exact List.Sublist.refl _

theorem Executes.sublist (h : Executes f reenter files identifier p s ran t) : ran.Sublist [p] := by
  cases h with
  | nothing => exact List.nil_sublist _
  | module => exact List.Sublist.refl _

theorem Visits.sublist (h : Visits f reenter files identifier bases s warned ran t) :
    warned.Sublist (bases.map fun base => f.markupPath base identifier) ∧
      ran.Sublist (bases.map fun base => f.producerPath base identifier) := by
  induction h with
  | stop => exact ⟨List.nil_sublist _, List.nil_sublist _⟩
  | visit hwarns hexecutes _ ih =>
      exact ⟨hwarns.sublist.append ih.1, hexecutes.sublist.append ih.2⟩

end Folders

def Event.isExecution : Event → Bool
  | .executed .. => true
  | _ => false

/-- How many runs of modules are noted in a session. -/
def Session.executions (s : Session) : Nat := s.trace.countP fun e => e.2.isExecution

/-- The compiles that a site's code asks for note and log nothing. -/
def Engine.Reentry.IsQuiet (reenter : Reentry) (files : SiteTree) : Prop :=
  ∀ html page s, ((reenter html page).exec files s).2.trace = s.trace ∧
    ((reenter html page).exec files s).2.log = s.log

section Quiet

variable {f : Folders} {reenter : Reentry} {files : SiteTree} {identifier : Text} {p : Path}
  {bases warned ran : List Path} {s t : Session} (hquiet : reenter.IsQuiet files)
include hquiet

theorem Engine.Reentry.IsQuiet.run {α : Type} (script : Script α) (s : Session) :
    ((run reenter script).exec files s).2.trace = s.trace ∧
      ((run reenter script).exec files s).2.log = s.log := by
  induction script generalizing s with
  | done a => exact ⟨rfl, rfl⟩
  | fail fault => exact ⟨rfl, rfl⟩
  | context next ih => exact ih _ s
  | compile html page next ih =>
      obtain ⟨htrace, hlog⟩ := hquiet html page s
      rw [exec_run_compile, exec_bind]
      cases hcompile : (reenter html page).exec files s with
      | mk result after =>
          rw [hcompile] at htrace hlog
          cases result with
          | ok out =>
              obtain ⟨hthen, hmore⟩ := ih out after
              exact ⟨hthen.trans htrace, hmore.trans hlog⟩
          | error fault => exact ⟨htrace, hlog⟩
  | newCounter next ih => exact ih _ _
  | count counter next ih => exact ih _ _

namespace Folders

theorem quiet_firstExport (module : Module) (exports : Table Value) (names : List Text)
    (s : Session) :
    ((firstExport reenter module exports names).exec files s).2.trace = s.trace ∧
      ((firstExport reenter module exports names).exec files s).2.log = s.log := by
  induction names generalizing s with
  | nil => exact ⟨rfl, rfl⟩
  | cons name names ih =>
      unfold firstExport
      cases exports.get? name with
      | some value => exact ⟨rfl, rfl⟩
      | none =>
          obtain ⟨htrace, hlog⟩ := hquiet.run (module.missing name) s
          simp only
          rw [exec_bind, exec_attempt]
          cases hrun : (run reenter (module.missing name)).exec files s with
          | mk result after =>
              rw [hrun] at htrace hlog
              cases result with
              | ok value =>
                  obtain ⟨hagain, hmore⟩ := hquiet.run (module.missing name) after
                  exact ⟨hagain.trans htrace, hmore.trans hlog⟩
              | error fault =>
                  simp only
                  cases fault.stops with
                  | true => exact ⟨htrace, hlog⟩
                  | false =>
                      simp only [Bool.false_eq_true, if_false]
                      split
                      · exact ⟨(ih after).1.trans htrace, (ih after).2.trans hlog⟩
                      · exact ⟨htrace, hlog⟩

/-- One run of a module is noted, and its code notes and logs nothing. -/
theorem quiet_execute (p : Path) (module : Module) (s : Session) :
    ((execute reenter identifier p module).exec files s).2.trace =
        s.trace ++ [(s.context, .executed module.label (moduleName identifier))] ∧
      ((execute reenter identifier p module).exec files s).2.log = s.log := by
  unfold execute
  rw [exec_bind, exec_note]
  simp only
  rw [exec_bind, exec_attempt]
  obtain ⟨htrace, hlog⟩ := hquiet.run (module.body (moduleName identifier))
    { s with trace := s.trace ++ [(s.context, .executed module.label (moduleName identifier))] }
  cases hrun : (run reenter (module.body (moduleName identifier))).exec files
      { s with
        trace := s.trace ++ [(s.context, .executed module.label (moduleName identifier))] } with
  | mk result after =>
      rw [hrun] at htrace hlog
      cases result with
      | ok exports =>
          obtain ⟨hexports, hmore⟩ := quiet_firstExport hquiet module (Table.ofList exports)
            exportNames after
          exact ⟨hexports.trans htrace, hmore.trans hlog⟩
      | error cause =>
          simp only
          cases cause.stops <;> exact ⟨htrace, hlog⟩

theorem Executes.counts (h : Executes f reenter files identifier p s ran t) :
    t.executions = s.executions + ran.length ∧ t.log = s.log := by
  cases h with
  | nothing => exact ⟨rfl, rfl⟩
  | @module module kept h =>
      obtain ⟨htrace, hlog⟩ := @quiet_execute _ _ identifier hquiet p module
        { s with bytecode := s.bytecode ++ kept }
      refine ⟨?_, hlog⟩
      rw [Session.executions, htrace, List.countP_append]
      rfl

omit hquiet in
theorem Warns.counts (h : Warns f files p s warned t) :
    t.executions = s.executions ∧ t.log.length = s.log.length + warned.length := by
  cases h with
  | quiet => exact ⟨rfl, rfl⟩
  | unreadable => exact ⟨rfl, List.length_append⟩

/-- Apart from nested compiles, the runs noted and the records logged are those of the visits. -/
theorem Visits.counts (h : Visits f reenter files identifier bases s warned ran t) :
    t.executions = s.executions + ran.length ∧
      t.log.length = s.log.length + warned.length := by
  induction h with
  | stop => exact ⟨rfl, rfl⟩
  | visit hwarns hexecutes _ ih =>
      obtain ⟨hruns, hwarned⟩ := hwarns.counts
      obtain ⟨hran, hlog⟩ := hexecutes.counts hquiet
      rw [ih.1, ih.2, hran, hlog, hruns, hwarned, List.length_append, List.length_append]
      omega

end Folders

end Quiet

/-! ## Candidates in different bases -/

/-- Bases at different places have their candidates at different places. -/
theorem Folders.nodup_candidates {files : SiteTree} {bases : List Path} {s : Text}
    (hbases : (bases.map files.spot).Nodup) (h : Path.LeadsDown s) :
    (bases.map fun base => files.spot (base.child s)).Nodup := by
  have hspots : (bases.map fun base => files.spot (base.child s)) =
      (bases.map files.spot).map (· ++ (Path.ofText s).parts) := by
    rw [List.map_map]
    exact List.map_congr_left fun base _ => Path.spot_child_of_leadsDown files h base
  rw [hspots]
  exact List.Pairwise.map _ (fun _ _ hne heq => hne (List.append_cancel_right heq)) hbases

/-! ## The search paths of an environment -/

namespace Environment

/-- The provider that an environment has unless it is given one: its search paths. -/
def defaultProvider (e : Environment) : Folders :=
  Folders.ofPaths (searchPaths e.root e.projectRoot e.componentsDir)

/-- However a look-up over the search paths ends, it has looked in some of the first of them, once
in each. So it runs the module at a place at most as often as search paths lead to the place with
the identifier, and warns of a markup file at most as often; once at most where the search paths
are different folders and the identifier leads down from them. -/
theorem lookup_visits_once {e : Environment} (hprovider : e.provider = .folders e.defaultProvider)
    (reenter : Reentry) (files : SiteTree) (identifier : Text) (s : Session) :
    let after := ((e.provider.resolve reenter identifier).exec files s).2
    let paths := e.defaultProvider.paths
    ∃ warned ran,
      Folders.Visits e.defaultProvider reenter files identifier paths
        { s with trace := s.trace ++ [(s.context, .asked identifier)] } warned ran after ∧
      (reenter.IsQuiet files → after.executions = s.executions + ran.length ∧
        after.log.length = s.log.length + warned.length) ∧
      (∀ place, (ran.map files.spot).count place ≤ (paths.map fun base =>
        files.spot (e.defaultProvider.producerPath base identifier)).count place) ∧
      (∀ place, (warned.map files.spot).count place ≤ (paths.map fun base =>
        files.spot (e.defaultProvider.markupPath base identifier)).count place) ∧
      ((paths.map files.spot).Nodup → Path.LeadsDown (normalize identifier ++ ".py") →
        Path.LeadsDown (normalize identifier ++ ".html") →
          (ran.map files.spot).Nodup ∧ (warned.map files.spot).Nodup) := by
  intro after paths
  let asked : Session := { s with trace := s.trace ++ [(s.context, .asked identifier)] }
  have hafter : after = ((e.defaultProvider.resolve reenter identifier).exec files asked).2 := by
    simp only [after, hprovider]
    rfl
  obtain ⟨warned, ran, hvisits⟩ :=
    e.defaultProvider.exists_visits_resolve reenter files identifier asked
  rw [← hafter] at hvisits
  obtain ⟨hwarned, hran⟩ := hvisits.sublist
  have hwarned := hwarned.map files.spot
  have hran := hran.map files.spot
  rw [List.map_map] at hwarned hran
  refine ⟨warned, ran, hvisits, fun hquiet => ?_, fun place => hran.count_le place,
    fun place => hwarned.count_le place, fun hnodup hproducer hmarkup => ?_⟩
  · obtain ⟨hruns, hlog⟩ := hvisits.counts hquiet
    refine ⟨hruns.trans (congrArg (· + ran.length) ?_), hlog⟩
    simp [asked, Session.executions, Event.isExecution]
  · exact ⟨(Folders.nodup_candidates hnodup hproducer).sublist hran,
      (Folders.nodup_candidates hnodup hmarkup).sublist hwarned⟩

def brokenModule : Module where
  label := "src/components/Card.py"
  body _ := .fail (.raised "ValueError" "bad")

/-- A card of which the markup does not decode and the module fails. -/
def brokenCard : List (Text × Node Content) :=
  [("Card.html", .file (.bytes [255])),
    ("Card.py", .file (.code brokenModule))]

def brokenFiles : SiteTree := ⟨.folder [("src", .folder [("components", .folder brokenCard)])], []⟩

/-- With the project elsewhere than around the pages the three search paths are three folders. -/
theorem lookup_visits_once_card :
    let e := ofRoot (Path.ofText "src") (some (Path.ofText "lib"))
    e.provider = .folders e.defaultProvider ∧
      (e.defaultProvider.paths.map brokenFiles.spot).Nodup ∧
      ∃ warned ran,
        Folders.Visits e.defaultProvider noReentry brokenFiles "Card" e.defaultProvider.paths
          { Session.start with trace := [(none, .asked "Card")] } warned ran
          ((e.provider.resolve noReentry "Card").exec brokenFiles .start).2 ∧
        (ran.map brokenFiles.spot).Nodup ∧ (warned.map brokenFiles.spot).Nodup ∧
        ran.length = 1 := by
  intro e
  have hprovider : e.provider = .folders e.defaultProvider := rfl
  have hnodup : (e.defaultProvider.paths.map brokenFiles.spot).Nodup := by decide
  have hquiet : noReentry.IsQuiet brokenFiles := fun _ _ _ => ⟨rfl, rfl⟩
  obtain ⟨warned, ran, hvisits, hcounts, -, -, hfolders⟩ :=
    lookup_visits_once hprovider noReentry brokenFiles "Card" .start
  have honce := hfolders hnodup ⟨by decide, by decide, by decide⟩ ⟨by decide, by decide, by decide⟩
  have hruns : 1 = 0 + ran.length := (hcounts hquiet).1
  exact ⟨hprovider, hnodup, warned, ran, hvisits, honce.1, honce.2, by omega⟩

/-- With pages in `src` and everything else as usual the first two search paths are one folder: its
module runs twice, and its markup is warned of twice. -/
theorem lookup_visits_twice :
    let e := ofRoot (Path.ofText "src") none
    let after := ((e.provider.resolve noReentry "Card").exec brokenFiles .start).2
    e.provider = .folders e.defaultProvider ∧
      after.trace.map Prod.snd = [.asked "Card",
        .executed "src/components/Card.py" "_component_Card",
        .executed "src/components/Card.py" "_component_Card"] ∧
      ∃ warning, after.log = [warning, warning] ∧ warning.level = .warning :=
  ⟨rfl, rfl, _, rfl, rfl⟩

end Environment

end StaticSite
