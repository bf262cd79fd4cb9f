import StaticSite.Proofs.Component.Listing
import StaticSite.Proofs.Component.Mild

/-!
# How looking a component up can fail

A look-up ends in a component, in a fault that says there is none, in a fault that a site's code
lets through, or in a leak: a fault of looking at a file, of a codec, of a native module, or of
listing what there is for the message. Only folders leak. -/

namespace StaticSite

open Markup Engine

namespace Folders

variable {files : SiteTree} {reenter : Reentry}

/-- What breaks off a look-up in folders. -/
inductive Leak (f : Folders) (files : SiteTree) (identifier : Text) : Fault → Prop
  | markup {base : Path} (hbase : base ∈ f.paths) {cause : FileCause}
      (h : Refuses files (f.markupPath base identifier) cause) :
      Leak f files identifier (.file cause (f.markupPath base identifier))
  /-- A codec fails in another way than at the bytes of the text. -/
  | codec {base : Path} (hbase : base ∈ f.paths) {content : Content}
      (hread : files.read (f.markupPath base identifier) = .ok (.file content))
      {kind message : Text}
      (h : f.encoding.decode content.toBytes = .error (.broken kind message)) :
      Leak f files identifier (.raised kind message)
  | producer {base : Path} (hbase : base ∈ f.paths) {cause : FileCause}
      (h : Refuses files (f.producerPath base identifier) cause) :
      Leak f files identifier (.file cause (f.producerPath base identifier))
  /-- A native module is no such module. -/
  | native {base : Path} (hbase : base ∈ f.paths) {content : Content}
      (hthere : files.look (f.producerPath base identifier) = .ok (.file content))
      (hnative : Loader.ofPath? (f.producerPath base identifier) = some .native)
      {complaint : Complaint}
      (h : f.runtime.link ((contained files (files.absolute (f.producerPath base identifier))).map
        Content.toBytes) = .error complaint) : Leak f files identifier complaint.fault
  | listing {fault : Fault} (h : f.ListingFault files fault) : Leak f files identifier fault

/-- A leak is no request to stop and no fault that a page shows, and it can be worded. -/
theorem Leak.breaks {f : Folders} {identifier : Text} {fault : Fault}
    (h : f.Leak files identifier fault) :
    fault.stops = false ∧ fault.isShown = false ∧ fault.isWorded := by
  cases h with
  | listing h => cases h <;> exact ⟨rfl, rfl, rfl⟩
  | _ => exact ⟨rfl, rfl, rfl⟩

theorem ends_isFile (p : Path) :
    Ends files (Access.direct.isFile p) fun result added => added = [] ∧
      Outcome (fun there => there → ∃ content, '\x00' ∉ p.text ∧
        files.look p = .ok (.file content))
        (fun fault => ∃ cause, Refuses files p cause ∧ fault = .file cause p) result := by
  refine looks_isFile.ends ⟨rfl, ?_⟩
  cases hseen : seen files p with
  | error fault => exact seen_error_iff.mp hseen
  | ok n =>
      intro hthere
      cases n with
      | none => cases hthere
      | some n =>
          obtain ⟨hnull, hlook⟩ := seen_some hseen
          cases n with
          | file content => exact ⟨content, hnull, hlook⟩
          | folder entries => cases hthere

/-- What may come of a text that is to be read, apart from the text. -/
inductive ReadingFault (encoding : Text.Encoding) (files : SiteTree) (p : Path) : Fault → Prop
  | file (cause : FileCause) : ReadingFault encoding files p (.file cause p)
  | undecodable (fault : Text.DecodeFault) : ReadingFault encoding files p (.undecodable fault)
  | codec {content : Content} (hread : files.read p = .ok (.file content)) {kind message : Text}
      (h : encoding.decode content.toBytes = .error (.broken kind message)) :
      ReadingFault encoding files p (.raised kind message)

theorem peeks_readMarkupText (encoding : Text.Encoding) {p : Path} (hnull : '\x00' ∉ p.text) :
    Peeks files (ReadingFault encoding files p) (Access.direct.readText encoding p) := by
  refine ⟨_, looks_readText encoding, ?_⟩
  unfold textOf
  cases hcontained : contained files p with
  | error fault =>
      obtain ⟨cause, rfl⟩ := (contained_eq_error hcontained).resolve_right fun h => hnull h.1
      exact .file cause
  | ok content =>
      simp only [bind, Except.bind]
      unfold decoded
      cases hdecode : encoding.decode content.toBytes with
      | ok text => trivial
      | error fault =>
          cases fault with
          | undecodable fault => exact .undecodable fault
          | broken kind message => exact .codec (contained_eq_ok_iff.mp hcontained).2 hdecode

theorem ends_readMarkup {f : Folders} {identifier : Text} {base : Path} (hbase : base ∈ f.paths) :
    Ends files (f.readMarkup (f.markupPath base identifier)) fun result _ =>
      Outcome (fun _ => True) (f.Leak files identifier) result := by
  refine (ends_isFile _).bind ?_ ?_
  · intro there _ h
    cases there with
    | false => exact ends_pure trivial
    | true =>
        obtain ⟨content, hnull, -⟩ := h.2 rfl
        have hread := (@peeks_readMarkupText files f.encoding _ hnull).ends
        refine hread.after_attempt (fun fault _ h => by cases h.2 <;> rfl) ?_
        rintro outcome _ ⟨-, h⟩
        cases outcome with
        | ok markup => exact ends_pure trivial
        | error fault =>
            cases h with
            | file cause =>
                refine Ends.after_record ?_ _ _ _
                exact ends_pure trivial
            | undecodable fault =>
                refine Ends.after_record ?_ _ _ _
                exact ends_pure trivial
            | codec hread h => exact ends_throw (.codec hbase hread h)
  · rintro fault _ ⟨-, cause, hrefused, rfl⟩
    exact .markup hbase hrefused

section Producers

variable {loose : Fault → Prop} {escapes : List Entry → Fault → Prop}
  (hescaping : Escaping loose escapes) (hreenter : Gentle files escapes reenter)
  (hloose : ∀ {added fault}, loose fault → escapes added fault)
include hescaping hreenter hloose

theorem ends_firstExport {module : Module} (hmodule : module.Mild loose) {exports : Table Value}
    (hexports : ∀ e ∈ exports.entries, e.2.Mild loose) (names : List Text) :
    Ends files (firstExport reenter module exports names) fun result added =>
      Outcome (Value.Mild loose) (escapes added) result := by
  induction names with
  | nil => exact ends_pure nofun
  | cons name names ih =>
      unfold firstExport
      cases hget : exports.get? name with
      | some value => exact ends_pure (hexports _ (Table.mem_of_get?_eq_some hget))
      | none =>
          have hlater {added : List Entry} : Ends files (firstExport reenter module exports names)
              fun result more => Outcome (Value.Mild loose) (escapes (added ++ more)) result := by
            refine ih.mono fun result more h => ?_
            cases result with
            | ok value => exact h
            | error fault => exact hescaping.append h
          rcases hmodule.missing name with hdenies | hanswers
          · refine (ends_run hescaping hreenter hdenies).after_attempt ?_ ?_
            · rintro fault _ ((h | h) | h)
              · exact h.2
              · exact (hescaping.guarded (@hloose [] _ h)).not_stops
              · exact (hescaping.guarded h).not_stops
            · intro outcome added h
              cases outcome with
              | ok value => exact h.elim
              | error fault =>
                  simp only
                  split
                  · exact hlater
                  · rename_i hother
                    refine ends_throw ?_
                    rw [List.append_nil]
                    rcases h with (h | h) | h
                    · exact absurd h.1 hother
                    · exact hloose h
                    · exact h
          · have hrun := ends_run hescaping hreenter hanswers
            refine hrun.after_attempt ?_ ?_
            · rintro fault _ (h | h)
              · exact (hescaping.guarded (@hloose [] _ h)).not_stops
              · exact (hescaping.guarded h).not_stops
            · intro outcome added h
              cases outcome with
              | ok value =>
                  refine hrun.mono fun result more h => ?_
                  cases result with
                  | ok value => exact h
                  | error fault => exact h.elim hloose hescaping.append
              | error fault =>
                  simp only
                  split
                  · exact hlater
                  · refine ends_throw ?_
                    rw [List.append_nil]
                    exact h.elim hloose id

theorem ends_execute (identifier : Text) (path : Path) {module : Module}
    (hmodule : module.Mild loose) :
    Ends files (execute reenter identifier path module) fun result added =>
      Outcome (Value.Mild loose) (fun fault => fault.isMissing ∨ escapes added fault) result := by
  refine Ends.after_note fun context => ?_
  have hbody := ends_run_guarded hescaping hreenter (hmodule.body (moduleName identifier))
  refine hbody.after_attempt (fun _ _ h => h.not_stops) ?_
  intro outcome added h
  cases outcome with
  | ok exports =>
      have hexports : ∀ e ∈ (Table.ofList exports).entries, e.2.Mild loose :=
        fun e he => h e (Table.mem_of_mem_ofList he)
      refine (ends_firstExport hescaping hreenter hloose hmodule hexports _).mono ?_
      intro result more hmore
      cases result with
      | ok value => exact hmore
      | error fault => exact .inr (@Escaping.append _ _ hescaping (_ :: added) _ _ hmore)
  | error cause =>
      exact ends_throw ((Fault.isMissing_or_loose_inProducer h _ _).imp_right hloose)

theorem ends_loadProducer {f : Folders} (hfiles : MildFiles loose [f] files) {identifier : Text}
    {base : Path} (hbase : base ∈ f.paths) {content : Content}
    (hthere : files.look (f.producerPath base identifier) = .ok (.file content)) :
    Ends files (f.loadProducer reenter identifier (f.producerPath base identifier))
      fun result added => Outcome (Value.Mild loose)
        (fun fault => fault.isMissing ∨ f.Leak files identifier fault ∨ escapes added fault)
        result := by
  have hload : Ends files (Loading.ofFile .direct f.runtime (f.producerPath base identifier))
      fun result added => added = [] ∧
        result = .ok (Loading.loaded files f.runtime (f.producerPath base identifier)) :=
    (Loading.looks_ofFile _).ends ⟨rfl, rfl⟩
  refine hload.bind ?_ (fun _ _ h => by cases h.2)
  rintro _ _ ⟨rfl, hloaded⟩
  cases hloading : Loading.loaded files f.runtime (f.producerPath base identifier) with
  | unknown =>
      rw [hloading] at hloaded
      cases hloaded
      exact ends_pure nofun
  | unlinked fault =>
      rw [hloading] at hloaded
      cases hloaded
      obtain ⟨complaint, hnative, hlink, rfl⟩ := Loading.exists_of_loaded_unlinked hloading
      exact ends_throw (.inr (.inl (.native hbase hthere hnative hlink)))
  | broken cause =>
      rw [hloading] at hloaded
      cases hloaded
      refine ends_throw (.inl ?_)
      rw [Fault.inProducer_of_isWorded (Loading.isWorded_of_loaded_broken hloading)]
      rfl
  | ready module kept =>
      rw [hloading] at hloaded
      cases hloaded
      have hmodule := hfiles f (List.mem_singleton_self f) _ module kept hloading
      refine Ends.after_keep ?_ kept
      refine (ends_execute hescaping hreenter hloose identifier _ hmodule).mono ?_
      intro result added h
      cases result with
      | ok value => exact h
      | error fault => exact h.imp_right .inr

/-- How a look-up in folders ends: with a component, or with a fault that says there is none, or
with one that breaks it off. -/
def Resolved (f : Folders) (files : SiteTree) (loose : Fault → Prop)
    (escapes : List Entry → Fault → Prop) (identifier : Text) (added : List Entry) :
    Except Fault Source → Prop :=
  Outcome (Source.Mild loose)
    (fun fault => fault.isMissing ∨ f.Leak files identifier fault ∨ escapes added fault)

theorem ends_resolveAt {f : Folders} (hfiles : MildFiles loose [f] files) {identifier : Text}
    {base : Path} (hbase : base ∈ f.paths) :
    Ends files (f.resolveAt reenter identifier base) fun result added =>
      Outcome (fun source => ∀ found ∈ source, found.Mild loose)
        (fun fault => fault.isMissing ∨ f.Leak files identifier fault ∨ escapes added fault)
        result := by
  refine (ends_readMarkup hbase).bind ?_ ?_
  · intro markup added _
    cases markup with
    | some markup => exact ends_pure fun _ h => by cases h; exact nofun
    | none =>
        refine (ends_isFile _).bind ?_ ?_
        · intro there _ h
          cases there with
          | false => exact ends_pure fun _ h => by cases h
          | true =>
              obtain ⟨content, -, hthere⟩ := h.2 rfl
              refine (ends_loadProducer hescaping hreenter hloose hfiles hbase hthere).bind ?_ ?_
              · intro value _ hvalue
                refine ends_pure fun found hfound => ?_
                cases hnone : value.isNone with
                | true => simp [hnone] at hfound
                | false =>
                    simp only [hnone, Option.mem_def, Bool.false_eq_true, if_false,
                      Option.some.injEq] at hfound
                    rw [← hfound]
                    exact hvalue
              · intro fault more h
                refine h.imp_right (Or.imp_right fun h => ?_)
                exact hescaping.append (hescaping.append h)
        · rintro fault _ ⟨-, cause, hrefused, rfl⟩
          exact .inr (.inl (.producer hbase hrefused))
  · exact fun fault _ h => .inr (.inl h)

theorem ends_resolveFrom {f : Folders} (hfiles : MildFiles loose [f] files) {identifier : Text}
    {held : Option Fault} (hheld : ∀ fault ∈ held, fault.isMissing) {bases : List Path}
    (hbases : ∀ base ∈ bases, base ∈ f.paths) :
    Ends files (f.resolveFrom reenter identifier held bases) fun result added =>
      f.Resolved files loose escapes identifier added result := by
  unfold resolveFrom
  induction bases generalizing held with
  | nil =>
      cases held with
      | some fault => exact ends_throw (.inl (hheld fault rfl))
      | none =>
          refine (peeks_list f).ends.bind (fun _ _ _ => ends_throw (.inl rfl)) ?_
          exact fun fault _ h => .inr (.inl (.listing h.2))
  | cons base bases ih =>
      have hrest : ∀ b ∈ bases, b ∈ f.paths := fun b hb => hbases b (by simp [hb])
      have hhere := @ends_resolveAt _ _ _ _ hescaping hreenter hloose _ hfiles identifier _
        (hbases base (by simp))
      have hlater {held : Option Fault} (hheld : ∀ fault ∈ held, fault.isMissing)
          {added : List Entry} :
          Ends files (resolveFromVia .direct f reenter identifier held bases) fun result more =>
            f.Resolved files loose escapes identifier (added ++ more) result := by
        refine (ih hheld hrest).mono fun result more h => ?_
        cases result with
        | ok source => exact h
        | error fault => exact h.imp_right (Or.imp_right hescaping.append)
      rw [resolveFromVia]
      refine hhere.after_attempt ?_ ?_
      · rintro fault _ (h | h | h)
        · exact Fault.stops_of_isMissing h
        · exact h.breaks.1
        · exact (hescaping.guarded h).not_stops
      · intro outcome added h
        cases outcome with
        | ok found =>
            cases found with
            | some source => exact ends_pure (h source rfl)
            | none => exact hlater hheld
        | error fault =>
            cases fault with
            | producerFailed =>
                refine hlater fun fault hfault => ?_
                cases held with
                | none =>
                    cases hfault
                    rfl
                | some first => exact hheld fault hfault
            | _ =>
                refine ends_throw ?_
                rw [List.append_nil]
                exact h

end Producers

end Folders

namespace Provider

mutual

def leaves : Provider → List Folders
  | .table _ => []
  | .function _ => []
  | .folders f => [f]
  | .choice providers => allLeaves providers

def allLeaves : List Provider → List Folders
  | [] => []
  | p :: ps => p.leaves ++ allLeaves ps

end

/-- What breaks off a look-up in one of some folders. -/
def Leak (leaves : List Folders) (files : SiteTree) (identifier : Text) (fault : Fault) : Prop :=
  ∃ f ∈ leaves, f.Leak files identifier fault

def Asked (identifier : Text) (added : List Entry) : Prop :=
  ∃ context, (context, Event.asked identifier) ∈ added

theorem asked_cons (context : Option Context) (identifier : Text) (added : List Entry) :
    Asked identifier ((context, Event.asked identifier) :: added) :=
  ⟨context, List.mem_cons_self⟩

theorem Asked.append_right {identifier : Text} {added : List Entry}
    (h : Asked identifier added) (more : List Entry) : Asked identifier (added ++ more) := by
  obtain ⟨context, h⟩ := h
  exact ⟨context, List.mem_append_left more h⟩

theorem Asked.append_left {identifier : Text} {added : List Entry}
    (h : Asked identifier added) (before : List Entry) : Asked identifier (before ++ added) := by
  obtain ⟨context, h⟩ := h
  exact ⟨context, List.mem_append_right before h⟩

/-- What comes through: a loose fault, or a leak of something that was asked for, which a nested
compile may have asked for. -/
def Escapes (loose : Fault → Prop) (leaves : List Folders) (files : SiteTree) (added : List Entry)
    (fault : Fault) : Prop :=
  loose fault ∨ ∃ identifier, Asked identifier added ∧ Leak leaves files identifier fault

theorem escaping {loose : Fault → Prop} (hloose : LooseFaults loose) (leaves : List Folders)
    (files : SiteTree) : Escaping loose (Escapes loose leaves files) where
  guarded := by
    rintro added fault (h | ⟨identifier, -, f, -, h⟩)
    · exact hloose.guarded h
    · refine ⟨h.breaks.1, ?_⟩
      rintro kind other rfl
      cases h.breaks.2.2
  append := by
    rintro added more fault (h | ⟨identifier, hasked, h⟩)
    · exact .inl h
    · exact .inr ⟨identifier, hasked.append_left added, h⟩

/-- How a fault of a look-up came about, of which the folders of `own` were part. -/
structure Blamed (loose : Fault → Prop) (leaves own : List Folders) (files : SiteTree)
    (identifier : Text) (added : List Entry) (fault : Fault) : Prop where
  cause : fault.isMissing ∨
    Asked identifier added ∧ Escapes loose leaves files added fault
  asked : own ≠ [] → Asked identifier added

/-- Of the providers that were asked one after another, the folders of some were part. -/
theorem asked_append {leaves more : List Folders} {identifier : Text} {added rest : List Entry}
    (h : leaves ≠ [] → Asked identifier added) (hmore : more ≠ [] → Asked identifier rest)
    (hne : leaves ++ more ≠ []) : Asked identifier (added ++ rest) := by
  by_cases hleaves : leaves = []
  · rw [hleaves, List.nil_append] at hne
    exact (hmore hne).append_left added
  · exact (h hleaves).append_right rest

section Resolve

variable {files : SiteTree} {reenter : Reentry} {loose : Fault → Prop} {all : List Folders}

theorem Blamed.stops (hloose : LooseFaults loose) {own : List Folders} {identifier : Text}
    {added : List Entry} {fault : Fault} (h : Blamed loose all own files identifier added fault) :
    fault.stops = false := by
  rcases h.cause with h | ⟨-, h⟩
  · exact Fault.stops_of_isMissing h
  · exact ((escaping hloose all files).guarded h).not_stops

mutual

theorem peeks_list : (p : Provider) →
    Peeks files (fun fault => ∃ f ∈ p.leaves, f.ListingFault files fault) p.list
  | .table _ => .pure _
  | .function _ => .pure _
  | .folders f => f.peeks_list.mono fun _ h => ⟨f, List.mem_singleton_self f, h⟩
  | .choice ps => (peeks_listAll ps).bind fun _ => .pure _

theorem peeks_listAll : (ps : List Provider) →
    Peeks files (fun fault => ∃ f ∈ allLeaves ps, f.ListingFault files fault) (listAll ps)
  | [] => .pure _
  | p :: ps =>
      ((peeks_list p).mono fun _ ⟨f, hf, h⟩ => ⟨f, List.mem_append_left _ hf, h⟩).bind fun _ =>
        ((peeks_listAll ps).mono fun _ ⟨f, hf, h⟩ => ⟨f, List.mem_append_right _ hf, h⟩).bind
          fun _ => .pure _

end

theorem ends_resolveTable {entries : Table Value} (h : ∀ e ∈ entries.entries, e.2.Mild loose)
    (identifier : Text) :
    Ends files (resolveTable entries identifier) fun result _ =>
      Outcome (Source.Mild loose) (·.isMissing) result := by
  unfold resolveTable
  cases hget : entries.get? (normalize identifier) with
  | none => exact ends_throw rfl
  | some value =>
      have hmild := h _ (Table.mem_of_get?_eq_some hget)
      cases value with
      | text markup => exact ends_pure nofun
      | _ => exact ends_pure hmild

theorem mild_ofValue (identifier origin : Text) {value : Value} (h : value.Mild loose) :
    (Source.ofValue identifier origin value).Mild loose := by
  cases value with
  | text markup => exact nofun
  | source other markup inner place => exact h.1
  | _ => exact h

theorem ends_resolveFunction (hloose : LooseFaults loose)
    (hreenter : Gentle files (Escapes loose all files) reenter) {lookUp : Text → Script Value}
    (h : ∀ identifier, (lookUp identifier).Keeps (Value.Mild loose) (Fault.Guarded loose))
    (identifier : Text) :
    Ends files (resolveFunction reenter lookUp identifier) fun result _ =>
      Outcome (Source.Mild loose) (fun fault => fault.isMissing ∨ loose fault) result := by
  refine Ends.after_note fun _ => ?_
  refine (ends_run_guarded (escaping hloose all files) hreenter (h _)).after_attempt
    (fun _ _ h => h.not_stops) ?_
  intro outcome _ houtcome
  cases outcome with
  | error cause => exact ends_throw (Fault.isMissing_or_loose_inProducer houtcome _ _)
  | ok value =>
      simp only
      split
      · exact ends_throw (.inl rfl)
      · exact ends_pure (mild_ofValue _ _ houtcome)

/-- How asking providers in order ends, which were asked in vain when there is no source. -/
def ResolvedFirst (loose : Fault → Prop) (leaves own : List Folders) (files : SiteTree)
    (identifier : Text) (added : List Entry) : Except Fault (Option Source) → Prop :=
  Outcome (fun found => (∀ source ∈ found, source.Mild loose ∧ Asked identifier added) ∧
      (found = none → own ≠ [] → Asked identifier added))
    (Blamed loose leaves own files identifier added)

theorem ResolvedFirst.after (hloose : LooseFaults loose) {own more : List Folders}
    {identifier : Text} {added rest : List Entry} {result : Except Fault (Option Source)}
    (hadded : own ≠ [] → Asked identifier added)
    (h : ResolvedFirst loose all more files identifier rest result) :
    ResolvedFirst loose all (own ++ more) files identifier (added ++ rest) result := by
  cases result with
  | ok found =>
      refine ⟨fun source hsource => ?_, fun hnone => asked_append hadded (h.2 hnone)⟩
      exact (h.1 source hsource).imp_right fun hasked => hasked.append_left added
  | error fault =>
      refine ⟨h.cause.imp_right fun ⟨hasked, hescapes⟩ => ?_, asked_append hadded h.asked⟩
      exact ⟨hasked.append_left added, (escaping hloose all files).append hescapes⟩

mutual

theorem ends_resolve (hloose : LooseFaults loose)
    (hreenter : Gentle files (Escapes loose all files) reenter)
    (hfiles : MildFiles loose all files) (identifier : Text) : (p : Provider) → p.Mild loose →
    (∀ f ∈ p.leaves, f ∈ all) →
    Ends files (p.resolve reenter identifier) fun result added =>
      Outcome (fun source => source.Mild loose ∧ Asked identifier added)
        (Blamed loose all p.leaves files identifier added) result
  | .table entries, hp, _ => by
      rw [resolve]
      refine Ends.after_note fun context =>
        (ends_resolveTable hp identifier).mono fun result added h => ?_
      have hasked := asked_cons context identifier added
      cases result with
      | ok source => exact ⟨h, hasked⟩
      | error fault => exact ⟨.inl h, fun _ => hasked⟩
  | .function lookUp, hp, _ => by
      rw [resolve]
      refine Ends.after_note fun context =>
        (ends_resolveFunction hloose hreenter hp identifier).mono fun result added h => ?_
      have hasked := asked_cons context identifier added
      cases result with
      | ok source => exact ⟨h, hasked⟩
      | error fault => exact ⟨h.imp_right fun h => ⟨hasked, .inl h⟩, fun _ => hasked⟩
  | .folders f, _, hleaves => by
      have hf : f ∈ all := hleaves f (List.mem_singleton_self f)
      have hhere : MildFiles loose [f] files := by
        intro g hg
        rw [List.mem_singleton.mp hg]
        exact hfiles f hf
      have hnone : ∀ fault ∈ (none : Option Fault), fault.isMissing := by simp
      have hfolders := @Folders.ends_resolveFrom _ _ _ _ (escaping hloose all files) hreenter Or.inl
        _ hhere identifier _ hnone _ fun _ h => h
      rw [resolve]
      refine Ends.after_note fun context => hfolders.mono fun result added h => ?_
      have hasked := asked_cons context identifier added
      cases result with
      | ok source => exact ⟨h, hasked⟩
      | error fault =>
          refine ⟨h.imp_right fun h => ⟨hasked, ?_⟩, fun _ => hasked⟩
          rcases h with hleak | hescapes
          · exact .inr ⟨identifier, hasked, f, hf, hleak⟩
          · exact @Escaping.append _ _ (escaping hloose all files) [_] _ _ hescapes
  | .choice ps, hp, hleaves => by
      have hnone : ∀ fault ∈ (none : Option Fault), fault.isMissing := by simp
      rw [resolve]
      refine (ends_resolveFirst hloose hreenter hfiles identifier ps hp hleaves none hnone).bind ?_
        (fun _ _ h => h)
      intro found added h
      cases found with
      | some source =>
          refine ends_pure ?_
          rw [List.append_nil]
          exact h.1 source rfl
      | none =>
          have hasked : allLeaves ps ≠ [] → Asked identifier added := h.2 rfl
          refine (peeks_listAll ps).ends.bind (fun _ _ _ => ends_throw ?_) ?_
          · exact ⟨.inl rfl, fun hne => (hasked hne).append_right _⟩
          · rintro fault rest ⟨-, f, hf, hlisting⟩
            have hthere := (hasked (List.ne_nil_of_mem hf)).append_right rest
            exact ⟨.inr ⟨hthere, .inr ⟨identifier, hthere, f, hleaves f hf, .listing hlisting⟩⟩,
              fun _ => hthere⟩

theorem ends_resolveFirst (hloose : LooseFaults loose)
    (hreenter : Gentle files (Escapes loose all files) reenter)
    (hfiles : MildFiles loose all files) (identifier : Text) :
    (ps : List Provider) → AllMild loose ps →
    (∀ f ∈ allLeaves ps, f ∈ all) → (held : Option Fault) →
    (∀ fault ∈ held, fault.isMissing) →
    Ends files (resolveFirst reenter identifier held ps) fun result added =>
      ResolvedFirst loose all (allLeaves ps) files identifier added result
  | [], _, _, some fault, hheld => by
      rw [resolveFirst]
      exact ends_throw ⟨.inl (hheld fault rfl), fun hne => absurd rfl hne⟩
  | [], _, _, none, _ => by
      rw [resolveFirst]
      exact ends_pure ⟨by simp, fun _ hne => absurd rfl hne⟩
  | p :: ps, hp, hleaves, held, hheld => by
      have hfirst : ∀ f ∈ p.leaves, f ∈ all := fun f hf => hleaves f (List.mem_append_left _ hf)
      have hlater : ∀ f ∈ allLeaves ps, f ∈ all :=
        fun f hf => hleaves f (List.mem_append_right _ hf)
      rw [resolveFirst]
      refine (ends_resolve hloose hreenter hfiles identifier p hp.1 hfirst).after_attempt
        (fun _ _ h => h.stops hloose) ?_
      intro outcome added h
      cases outcome with
      | ok source =>
          refine ends_pure ⟨fun other hother => ?_, fun hnone => by cases hnone⟩
          cases hother
          exact h.imp_right fun hasked => hasked.append_right _
      | error fault =>
          cases fault with
          | producerFailed i location cause =>
              have hrest := ends_resolveFirst hloose hreenter hfiles identifier ps hp.2 hlater
                (held.or (some (.producerFailed i location cause))) fun other hother => ?_
              · exact hrest.mono fun _ _ hlast => hlast.after hloose h.asked
              cases held with
              | none =>
                  cases hother
                  rfl
              | some first => exact hheld other hother
          | componentNotFound =>
              have hrest := ends_resolveFirst hloose hreenter hfiles identifier ps hp.2 hlater held
                hheld
              exact hrest.mono fun _ _ hlast => hlast.after hloose h.asked
          | _ =>
              refine ends_throw ?_
              rw [List.append_nil]
              have hcause := h.cause.resolve_left nofun
              exact ⟨.inr hcause, fun _ => hcause.1⟩

end

end Resolve

end Provider

end StaticSite
