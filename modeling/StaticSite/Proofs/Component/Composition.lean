import StaticSite.Proofs.Compile.Unread
import StaticSite.Proofs.Component.Search
import StaticSite.Proofs.Text.Order

/-!
# Providers put together

Folders that are split in two, and choices that are nested in a choice, find what the whole finds
and do the same on the way. There is one difference: a part that has found nothing lists what it
has before it says so, and where its listing fails the look-up ends.
-/

namespace StaticSite

open Engine

/-! ## The faults of a search -/

theorem Fault.breaks_of_not_shown {fault : Fault} (h : fault.isShown = false) : fault.Breaks := by
  cases fault <;> first | rfl | cases h

namespace Engine

variable {α β : Type} {files : SiteTree} {blame : Fault → Prop} {act : Engine α}

theorem breaks_of_heard {outcome : Except Fault Source} {fault : Fault}
    (h : heard outcome = .error fault) : fault.Breaks := by
  cases outcome with
  | ok source => cases h
  | error first =>
      cases first with
      | producerFailed => cases h
      | componentNotFound => cases h
      | _ =>
          cases h
          rfl

/-- The action fails for no other cause than those of `blame`. -/
def Blames (files : SiteTree) (blame : Fault → Prop) (act : Engine α) : Prop :=
  ∀ s fault, (act.exec files s).1 = .error fault → blame fault

namespace Blames

theorem pure (a : α) : Blames files blame (Pure.pure a) := by
  rintro s fault ⟨⟩

theorem throw {fault : Fault} (h : blame fault) : Blames files blame (throw fault : Engine α) := by
  rintro s _ ⟨⟩
  exact h

theorem bind {next : α → Engine β} (h : Blames files blame act)
    (hnext : ∀ a, Blames files blame (next a)) : Blames files blame (act >>= next) := by
  intro s fault hfault
  cases hresult : (act.exec files s).1 with
  | ok a =>
      rw [exec_bind_of_ok hresult] at hfault
      exact hnext a _ fault hfault
  | error first =>
      rw [exec_bind_of_error hresult] at hfault
      cases hfault
      exact h s fault hresult

theorem mono {more : Fault → Prop} (h : Blames files blame act)
    (hmore : ∀ fault, blame fault → more fault) : Blames files more act :=
  fun s fault hfault => hmore fault (h s fault hfault)

theorem of_ends {post : Except Fault α → List Entry → Prop} (h : Ends files act post)
    (hblame : ∀ fault added, post (.error fault) added → blame fault) :
    Blames files blame act := by
  intro s fault hfault
  obtain ⟨added, -, hpost⟩ := h s
  rw [hfault] at hpost
  exact hblame fault added hpost

/-- What is done after an attempt, by the result or the fault that it has had. -/
theorem after_attempt {next : Except Fault α → Engine β}
    (hstops : ∀ fault, fault.stops → blame fault) (hok : ∀ a, Blames files blame (next (.ok a)))
    (herror : ∀ s fault, (act.exec files s).1 = .error fault →
      Blames files blame (next (.error fault))) :
    Blames files blame (Engine.attempt act >>= next) := by
  intro s fault hfault
  cases hresult : (act.exec files s).1 with
  | ok a =>
      rw [exec_bind, exec_attempt_of_ok hresult] at hfault
      exact hok a _ fault hfault
  | error first =>
      cases hstop : first.stops with
      | true =>
          rw [exec_bind, exec_attempt_of_stop hresult hstop] at hfault
          cases hfault
          exact hstops _ hstop
      | false =>
          rw [exec_bind, exec_attempt_of_error hresult hstop] at hfault
          exact herror s first hresult _ fault hfault

theorem inOrder {acts : List (Engine Finding)} (h : ∀ act ∈ acts, Blames files blame act) :
    Blames files blame (Engine.inOrder acts) := by
  induction acts with
  | nil => exact .pure _
  | cons act acts ih =>
      have hrest := ih fun other hother => h other (List.mem_cons_of_mem act hother)
      apply (h act List.mem_cons_self).bind
      intro r
      cases r with
      | found source => exact .pure _
      | missed held => exact hrest.bind fun _ => .pure _

end Blames

theorem blames_ask (act : Engine Source) : Blames files Fault.Breaks (ask act) := by
  intro s fault h
  rw [exec_ask] at h
  exact breaks_of_heard h

end Engine

namespace Folders

variable {files : SiteTree} {reenter : Reentry} {f : Folders} {identifier : Text} {base : Path}
  {module : Module} {kept : KeptFiles}

/-- A fault that says that a component is missing and that is a module's own: of the module when it
is asked for a name, or of wording the fault that it fails with. -/
inductive Misleads (f : Folders) (files : SiteTree) (reenter : Reentry) (identifier : Text)
    (base : Path) : Fault → Prop
  | asked {module : Module} {kept : KeptFiles} {name other : Text}
      {searched available : List Text} {s : Session}
      (h : Loading.loaded files f.runtime (f.producerPath base identifier) = .ready module kept)
      (hrun : ((run reenter (module.missing name)).exec files s).1 =
        .error (.componentNotFound other searched available)) :
      Misleads f files reenter identifier base (.componentNotFound other searched available)
  | worded {module : Module} {kept : KeptFiles} {kind other : Text}
      {searched available : List Text} {s : Session}
      (h : Loading.loaded files f.runtime (f.producerPath base identifier) = .ready module kept)
      (hrun : ((run reenter (module.body (moduleName identifier))).exec files s).1 =
        .error (.unworded kind (.componentNotFound other searched available))) :
      Misleads f files reenter identifier base (.componentNotFound other searched available)

/-- A base fails because it breaks the search off, or because of its producer, or because a module
says itself that a component is missing. -/
def BaseFault (f : Folders) (files : SiteTree) (reenter : Reentry) (identifier : Text)
    (base : Path) (fault : Fault) : Prop :=
  fault.Breaks ∨ (∃ failure : ProducerFailure, fault = failure.fault) ∨
    f.Misleads files reenter identifier base fault

/-- A search fails because it is broken off, or because a module in one of the bases says itself
that a component is missing. -/
def SearchFault (f : Folders) (files : SiteTree) (reenter : Reentry) (identifier : Text)
    (bases : List Path) (fault : Fault) : Prop :=
  fault.Breaks ∨ ∃ base ∈ bases, f.Misleads files reenter identifier base fault

theorem searchFault_of_noticed {outcome : Except Fault (Option Source)} {fault : Fault}
    (houtcome : ∀ first, outcome = .error first →
      f.BaseFault files reenter identifier base first) (h : noticed outcome = .error fault) :
    fault.Breaks ∨ f.Misleads files reenter identifier base fault := by
  cases outcome with
  | ok found => cases found <;> cases h
  | error first =>
      rcases houtcome first rfl with hbreaks | ⟨failure, rfl⟩ | hmisleads
      · cases first with
        | producerFailed => cases h
        | componentNotFound => cases hbreaks
        | _ =>
            cases h
            exact .inl rfl
      · cases h
      · cases hmisleads with
        | asked hloaded hrun =>
            cases h
            exact .inr (.asked hloaded hrun)
        | worded hloaded hrun =>
            cases h
            exact .inr (.worded hloaded hrun)

theorem baseFault_of_stops {fault : Fault} (h : fault.stops) :
    f.BaseFault files reenter identifier base fault :=
  .inl (Fault.breaks_of_stops h)

section Module

variable (hloaded : Loading.loaded files f.runtime (f.producerPath base identifier) =
  .ready module kept)
include hloaded

theorem baseFault_of_asked {name : Text} {s : Session} {fault : Fault}
    (h : ((run reenter (module.missing name)).exec files s).1 = .error fault) :
    f.BaseFault files reenter identifier base fault := by
  cases fault with
  | producerFailed => exact .inr (.inl ⟨⟨_, _, _⟩, rfl⟩)
  | componentNotFound => exact .inr (.inr (.asked hloaded h))
  | _ => exact .inl rfl

theorem baseFault_of_body {s : Session} {cause : Fault}
    (h : ((run reenter (module.body (moduleName identifier))).exec files s).1 = .error cause)
    (location : Option Text) :
    f.BaseFault files reenter identifier base (cause.inProducer identifier location) := by
  cases cause with
  | unworded kind fault =>
      cases fault with
      | producerFailed => exact .inr (.inl ⟨⟨_, _, _⟩, rfl⟩)
      | componentNotFound => exact .inr (.inr (.worded hloaded h))
      | _ => exact .inl rfl
  | _ => exact .inr (.inl ⟨⟨_, _, _⟩, rfl⟩)

theorem blames_firstExport (exports : Table Value) (names : List Text) :
    Blames files (f.BaseFault files reenter identifier base)
      (firstExport reenter module exports names) := by
  induction names with
  | nil => exact .pure _
  | cons name names ih =>
      unfold firstExport
      cases exports.get? name with
      | some value => exact .pure _
      | none =>
          refine .after_attempt (fun _ => baseFault_of_stops) ?_ ?_
          · exact fun _ s fault h => baseFault_of_asked hloaded h
          · intro s fault h
            simp only
            split
            · exact ih
            · exact .throw (baseFault_of_asked hloaded h)

theorem blames_execute (path : Path) :
    Blames files (f.BaseFault files reenter identifier base)
      (execute reenter identifier path module) := by
  have hnote (event : Event) :
      Blames files (f.BaseFault files reenter identifier base) (note event) :=
    fun _ _ h => by cases h
  refine (hnote _).bind fun _ => .after_attempt (fun _ => baseFault_of_stops) ?_ ?_
  · exact fun exports => blames_firstExport hloaded _ _
  · exact fun s cause h => .throw (baseFault_of_body hloaded h _)

end Module

theorem blames_loadProducer (f : Folders) (identifier : Text) (base : Path) :
    Blames files (f.BaseFault files reenter identifier base)
      (f.loadProducer reenter identifier (f.producerPath base identifier)) := by
  intro s fault hfault
  have hload : Looks files
      (Loading.ofFile .direct f.runtime (f.producerPath base identifier)) _ :=
    Loading.looks_ofFile _
  unfold loadProducer loadProducerVia at hfault
  rw [exec_bind, hload s] at hfault
  cases hloading : Loading.loaded files f.runtime (f.producerPath base identifier) with
  | unknown =>
      rw [hloading] at hfault
      cases hfault
  | unlinked other =>
      rw [hloading] at hfault
      cases hfault
      obtain ⟨complaint, -, -, rfl⟩ := Loading.exists_of_loaded_unlinked hloading
      exact .inl rfl
  | broken cause =>
      rw [hloading] at hfault
      cases hfault
      rw [Fault.inProducer_of_isWorded (Loading.isWorded_of_loaded_broken hloading)]
      exact .inr (.inl ⟨⟨_, _, _⟩, rfl⟩)
  | ready module kept =>
      rw [hloading] at hfault
      exact blames_execute hloading _ _ fault hfault

theorem blames_resolveAt (f : Folders) (identifier : Text) (base : Path) :
    Blames files (f.BaseFault files reenter identifier base)
      (f.resolveAt reenter identifier base) := by
  have hthere (p : Path) :
      Blames files (f.BaseFault files reenter identifier base) (Access.direct.isFile p) := by
    refine Blames.of_ends (ends_isFile p) ?_
    rintro fault _ ⟨-, -, -, rfl⟩
    exact .inl rfl
  have hmarkup : Blames files (f.BaseFault files reenter identifier base)
      (f.readMarkup (f.markupPath base identifier)) := by
    let alone : Folders := { f with paths := [base] }
    have hends : Ends files (alone.readMarkup (alone.markupPath base identifier)) _ :=
      ends_readMarkup (List.mem_singleton_self base)
    exact Blames.of_ends hends fun fault _ h => .inl (Fault.breaks_of_not_shown h.breaks.2.1)
  refine hmarkup.bind fun markup => ?_
  cases markup with
  | some markup => exact .pure _
  | none =>
      refine (hthere _).bind fun there => ?_
      cases there with
      | false => exact .pure _
      | true => exact (f.blames_loadProducer identifier base).bind fun value => .pure _

theorem blames_search (f : Folders) (identifier : Text) (bases : List Path) :
    Blames files (f.SearchFault files reenter identifier bases)
      (f.search reenter identifier bases) := by
  refine .inOrder fun act hact => ?_
  obtain ⟨base, hbase, rfl⟩ := List.mem_map.mp hact
  intro s fault h
  rw [exec_visit] at h
  have hfault := searchFault_of_noticed (f.blames_resolveAt identifier base s) h
  exact hfault.imp_right fun h => ⟨base, hbase, h⟩

end Folders

/-! ## What asking comes to -/

namespace Engine

variable {files : SiteTree} {act other next rest : Engine Finding} {list : Engine (List Text)}

/-- After a search that has come to nothing there is a listing, which may fail. -/
def thenList (list : Engine (List Text)) : Finding → Engine Finding
  | .missed none => do
      let _ ← list
      return .missed none
  | r => pure r

/-- Asking whoever searches and then lists what there is instead. -/
theorem exec_ask_conclude {s : Session}
    (hact : ∀ fault, (act.exec files s).1 = .error fault → fault.Breaks)
    (hlist : Peeks files Fault.Breaks list) (identifier : Text) (searched : List Text)
    (available : List Text → List Text) :
    (ask (act >>= conclude do
        throw (.componentNotFound identifier searched (available (← list))))).exec files s =
      (act >>= thenList list).exec files s := by
  rw [exec_ask, exec_bind, exec_bind]
  cases hexec : act.exec files s with
  | mk result after =>
      cases result with
      | error fault =>
          have hbreaks : fault.Breaks := hact fault (by rw [hexec])
          simp only [heard_of_breaks hbreaks]
      | ok r =>
          cases r with
          | found source => rfl
          | missed held =>
              cases held with
              | some failure => rfl
              | none =>
                  obtain ⟨listed, hlooks, hbreaks⟩ := hlist
                  simp only [conclude, thenList, exec_bind, hlooks after]
                  cases listed with
                  | ok ids => rfl
                  | error fault => simp only [heard_of_breaks hbreaks]

theorem exec_thenList {ids : List Text} (h : Looks files list (.ok ids)) (act : Engine Finding)
    (s : Session) : (act >>= thenList list).exec files s = act.exec files s := by
  rw [exec_bind]
  cases act.exec files s with
  | mk result after =>
      cases result with
      | error fault => rfl
      | ok r =>
          cases r with
          | found source => rfl
          | missed held =>
              cases held with
              | some failure => rfl
              | none => simp only [thenList, exec_bind, h after, exec_pure]

theorem exec_bind_congr {α β : Type} {act other : Engine α} {next rest : α → Engine β}
    (hact : ∀ s, act.exec files s = other.exec files s)
    (hnext : ∀ a s, (next a).exec files s = (rest a).exec files s) (s : Session) :
    (act >>= next).exec files s = (other >>= rest).exec files s := by
  rw [exec_bind, exec_bind, hact]
  cases other.exec files s with
  | mk result after =>
      cases result with
      | ok a => exact hnext a after
      | error fault => rfl

theorem exec_orThen_congr (hact : ∀ s, act.exec files s = other.exec files s)
    (hnext : ∀ s, next.exec files s = rest.exec files s) (s : Session) :
    (orThen act next).exec files s = (orThen other rest).exec files s := by
  refine exec_bind_congr hact (fun r => ?_) s
  cases r with
  | found source => exact fun _ => rfl
  | missed held => exact exec_bind_congr hnext fun _ _ => rfl

end Engine

/-! ## Choices in a choice -/

theorem Text.sortedSet_append_sortedSet (ts us : List Text) :
    sortedSet (sortedSet ts ++ sortedSet us) = sortedSet (ts ++ us) := by
  apply sortedSet_congr
  intro s
  simp only [List.mem_append, mem_sortedSet]

namespace Catalog

variable {files : SiteTree}

/-- The catalog can be listed. -/
def Lists (files : SiteTree) (c : Catalog) : Prop := ∃ ids, Looks files c.list (.ok ids)

theorem looks_listAll {cs : List Catalog} (h : ∀ c ∈ cs, c.Lists files) :
    ∃ ids, Looks files (listAll cs) (.ok ids) := by
  induction cs with
  | nil => exact ⟨[], fun _ => rfl⟩
  | cons c cs ih =>
      obtain ⟨ids, hids⟩ := h c List.mem_cons_self
      obtain ⟨more, hmore⟩ := ih fun d hd => h d (List.mem_cons_of_mem c hd)
      refine ⟨ids ++ more, fun s => ?_⟩
      simp only [listAll, exec_bind, hids s, hmore s, exec_pure]

theorem listAll_pair (cs ds : List Catalog) :
    (do return Text.sortedSet (← listAll [choice cs, choice ds])) =
      (do return Text.sortedSet (← listAll (cs ++ ds)) : Engine (List Text)) := by
  simp only [listAll, choice, listAll_append, bind_assoc, pure_bind, List.append_nil,
    Text.sortedSet_append_sortedSet]

/-- Choices in a choice list what one choice of all lists. -/
theorem list_choice_pair (cs ds : List Catalog) :
    (choice [choice cs, choice ds]).list = (choice (cs ++ ds)).list :=
  listAll_pair cs ds

theorem absent_pair (cs ds : List Catalog) (identifier : Text) :
    absent [choice cs, choice ds] identifier = absent (cs ++ ds) identifier := by
  have h := congrArg (· >>= fun ids => (throw (.componentNotFound identifier [] ids) :
    Engine Source)) (listAll_pair cs ds)
  simp only [bind_assoc, pure_bind] at h
  exact h

/-- Choices in a choice find what one choice of all finds, by the same steps, when what is to be
chosen from can be listed. -/
theorem exec_choice_pair {cs ds : List Catalog} (hlists : ∀ c ∈ cs ++ ds, c.Lists files)
    (identifier : Text) (s : Session) :
    ((choice [choice cs, choice ds]).find identifier).exec files s =
      ((choice (cs ++ ds)).find identifier).exec files s := by
  have hask (es : List Catalog) (hes : ∀ c ∈ es, c.Lists files) (s : Session) :
      (ask ((choice es).find identifier)).exec files s =
        (inOrder (es.map fun c => ask (c.find identifier))).exec files s := by
    obtain ⟨ids, hids⟩ := looks_listAll hes
    have hbreaks : Blames files Fault.Breaks
        (inOrder (es.map fun c => ask (c.find identifier))) := by
      refine .inOrder fun act hact => ?_
      obtain ⟨c, -, rfl⟩ := List.mem_map.mp hact
      exact blames_ask _
    exact (exec_ask_conclude (hbreaks s) ⟨_, hids, trivial⟩ identifier [] _).trans
      (exec_thenList hids _ s)
  have hcs := hask cs fun c hc => hlists c (List.mem_append_left ds hc)
  have hds := hask ds fun c hc => hlists c (List.mem_append_right cs hc)
  have hpair : ∀ s, (inOrder ([choice cs, choice ds].map fun c => ask (c.find identifier))).exec
      files s = (inOrder ((cs ++ ds).map fun c => ask (c.find identifier))).exec files s := by
    intro s
    rw [List.map_append, inOrder_append]
    refine exec_orThen_congr hcs (fun s => ?_) s
    exact (congrArg (fun act => exec act files s) (orThen_missed _)).trans (hds s)
  refine exec_bind_congr hpair (fun r s => ?_) s
  rw [absent_pair]

end Catalog

/-! ## Folders split in two -/

/-- The same folders with other bases. -/
def Folders.over (f : Folders) (bases : List Path) : Folders := { f with paths := bases }

def Event.isAsked : Event → Bool
  | .asked _ => true
  | _ => false

/-- What was noted of the site's code, leaving aside which providers were asked. -/
def Session.work (s : Session) : List Entry := s.trace.filter fun e => !e.2.isAsked

/-- The same was done in two sessions, whichever providers were asked for it, and the bytecode files
left by it are alike. -/
structure Session.SameWork (s t : Session) (alike : KeptFiles → KeptFiles → Prop) : Prop where
  context : s.context = t.context
  log : s.log = t.log
  counters : s.counters = t.counters
  work : s.work = t.work
  bytecode : alike s.bytecode t.bytecode

theorem Session.SameWork.refl (s : Session) : s.SameWork s Eq := ⟨rfl, rfl, rfl, rfl, rfl⟩

/-- The fault without the places that were searched for a component. -/
def Fault.unplaced : Fault → Fault
  | .componentNotFound identifier _ available => .componentNotFound identifier [] available
  | fault => fault

/-- Two look-ups end alike: with the same component, or the same fault up to the places searched,
after the same work. -/
structure SameEnd (whole parts : Except Fault Source × Session) : Prop where
  result : whole.1.mapError Fault.unplaced = parts.1.mapError Fault.unplaced
  session : whole.2.SameWork parts.2 Eq

/-- Where it was noted before that a provider was asked, a blind action works the same. -/
theorem Engine.Blind.exec_asked {α : Type} {files : SiteTree} {act : Engine α}
    (h : Blind files act) (identifier : Text) (s : Session) :
    ∃ after, (note (.asked identifier) >>= fun _ => act).exec files s =
      ((act.exec files s).1, after) ∧ (act.exec files s).2.SameWork after Eq := by
  have hfresh (earlier : List Entry) : ({ s with trace := [] } : Session).after earlier =
      { s with trace := earlier } := by
    rw [Session.after, List.append_nil]
  have hplain := h { s with trace := [] } s.trace
  have hasked := h { s with trace := [] } (s.trace ++ [(s.context, .asked identifier)])
  rw [hfresh] at hplain hasked
  rw [hplain, exec_bind, exec_note]
  refine ⟨_, hasked, rfl, rfl, rfl, ?_, rfl⟩
  simp [Session.work, Session.after, Event.isAsked]

namespace Folders

variable {files : SiteTree} (f : Folders)

/-- What the bases hold, before it is put in order. -/
def listBases (bases : List Path) : Engine (List Text) := do
  return (← bases.mapM f.listBase).flatten

theorem listBases_append (bases more : List Path) :
    f.listBases (bases ++ more) =
      (do return (← f.listBases bases) ++ (← f.listBases more)) := by
  simp only [listBases, List.mapM_append, bind_assoc, pure_bind, List.flatten_append]

theorem list_over (bases : List Path) :
    (f.over bases).list = (do return Text.sortedSet (← f.listBases bases)) := by
  simp only [list, listBases, bind_assoc, pure_bind]
  rfl

theorem exists_looks_list (files : SiteTree) : ∃ listed, Looks files f.list listed :=
  ⟨_, looks_list f⟩

variable {f} in
theorem closed_search {kind : Bytecode} {P : ∀ {α : Type}, Engine α → Prop}
    (hP : Closed files kind P) {reenter : Reentry} (hreenter : ∀ html page, P (reenter html page))
    (hkept : KeepsOnly kind [f] files) (identifier : Text) {bases : List Path}
    (hbases : ∀ base ∈ bases, base ∈ f.paths) : P (f.search reenter identifier bases) := by
  induction bases with
  | nil => exact hP.pure _
  | cons base bases ih =>
      have hbase := hP.resolveAt hreenter hkept identifier (hbases base List.mem_cons_self)
      have hvisit : P (visit (f.resolveAt reenter identifier base)) :=
        hP.bind (hP.attempt hbase) fun _ => hP.ofExcept _
      apply hP.bind hvisit
      intro r
      cases r with
      | found source => exact hP.pure _
      | missed held =>
          have hrest := ih fun b hb => hbases b (List.mem_cons_of_mem base hb)
          exact hP.bind hrest fun _ => hP.pure _

section Split

variable (xs ys : List Path) (reenter : Reentry)

/-- The two parts of the folders as a choice. -/
def split : Catalog :=
  .choice [(Provider.folders (f.over xs)).catalog reenter,
    (Provider.folders (f.over ys)).catalog reenter]

theorem list_split : (f.split xs ys reenter).list = (f.over (xs ++ ys)).list := by
  simp only [split, Catalog.choice, Catalog.listAll, Provider.catalog, Provider.list, list_over,
    listBases_append, bind_assoc, pure_bind, List.append_nil, Text.sortedSet_append_sortedSet]

variable (identifier : Text) {s t : Session}

/-- What the split folders do when no part has the component. -/
def absentSplit : Engine Source :=
  Catalog.absent [(Provider.folders (f.over xs)).catalog reenter,
    (Provider.folders (f.over ys)).catalog reenter] identifier

theorem absentSplit_eq : f.absentSplit xs ys reenter identifier = (do
    throw (.componentNotFound identifier [] (← (f.over (xs ++ ys)).list))) := by
  have h := congrArg (· >>= fun ids => (throw (.componentNotFound identifier [] ids) :
    Engine Source)) (f.list_split xs ys reenter)
  simp only [split, Catalog.choice, bind_assoc, pure_bind] at h
  exact h

/-- What is concluded from a search is the same for the whole and for the parts. -/
theorem sameEnd_conclude (files : SiteTree) (hst : s.SameWork t Eq) (r : Finding) :
    SameEnd ((conclude ((f.over (xs ++ ys)).absent identifier) r).exec files s)
      ((conclude (f.absentSplit xs ys reenter identifier) r).exec files t) := by
  cases r with
  | found source => exact ⟨rfl, hst⟩
  | missed held =>
      cases held with
      | some failure => exact ⟨rfl, hst⟩
      | none =>
          obtain ⟨listed, hlooks⟩ := (f.over (xs ++ ys)).exists_looks_list files
          have hwhole : Looks files (listVia .direct (f.over (xs ++ ys))) listed := hlooks
          simp only [conclude, absentSplit_eq, absent, absentVia, exec_bind, hwhole s, hlooks t]
          cases listed with
          | ok ids => exact ⟨rfl, hst⟩
          | error fault => exact ⟨rfl, hst⟩

/-- The folders with some bases are asked, and list what they have if they have found nothing. -/
def askOver (bases : List Path) : Engine Finding :=
  ask ((Provider.folders (f.over bases)).resolve reenter identifier)

/-- The search of the folders with some bases, after it is noted that they are asked. -/
def searchAsked (bases : List Path) : Engine Finding :=
  note (.asked identifier) >>= fun _ => f.search reenter identifier bases

theorem exec_askOver {bases : List Path}
    (h : ∀ fault, ((f.searchAsked reenter identifier bases).exec files s).1 = .error fault →
      fault.Breaks) :
    (f.askOver reenter identifier bases).exec files s =
      (f.searchAsked reenter identifier bases >>= thenList (f.over bases).list).exec files s := by
  have hlist : Peeks files Fault.Breaks (f.over bases).list :=
    (peeks_list (f.over bases)).mono fun _ h =>
      Fault.breaks_of_not_shown (Leak.listing h : (f.over bases).Leak files [] _).breaks.2.1
  have hasked := exec_ask_conclude h hlist identifier (bases.map Path.text) id
  rw [searchAsked, bind_assoc] at hasked
  rw [askOver, Provider.resolve, resolve_eq]
  exact hasked

theorem exec_askOver_of_ok {bases : List Path} {r : Finding}
    (h : (f.searchAsked reenter identifier bases).exec files s = (.ok r, t)) :
    (f.askOver reenter identifier bases).exec files s =
      (thenList (f.over bases).list r).exec files t := by
  rw [exec_askOver f reenter identifier (by rw [h]; nofun), exec_bind, h]

theorem exec_askOver_of_error {bases : List Path} {fault : Fault} (hbreaks : fault.Breaks)
    (h : (f.searchAsked reenter identifier bases).exec files s = (.error fault, t)) :
    (f.askOver reenter identifier bases).exec files s = (.error fault, t) := by
  have hquiet : ∀ other, ((f.searchAsked reenter identifier bases).exec files s).1 =
      .error other → other.Breaks := by
    rw [h]
    rintro _ ⟨⟩
    exact hbreaks
  rw [exec_askOver f reenter identifier hquiet, exec_bind, h]

theorem resolve_split : (Provider.choice [.folders (f.over xs), .folders (f.over ys)]).resolve
    reenter identifier = f.askOver reenter identifier xs >>= fun r =>
      goOn (f.askOver reenter identifier ys) r >>=
        conclude (f.absentSplit xs ys reenter identifier) := by
  rw [Provider.resolve_choice]
  simp only [Catalog.choice, List.map_cons, List.map_nil, inOrder, orThen_missed]
  rw [orThen, bind_assoc]
  rfl

theorem resolve_over_append : (Provider.folders (f.over (xs ++ ys))).resolve reenter identifier =
    f.searchAsked reenter identifier xs >>= fun r =>
      goOn (f.search reenter identifier ys) r >>=
        conclude ((f.over (xs ++ ys)).absent identifier) := by
  have hsearch : (f.over (xs ++ ys)).search reenter identifier (f.over (xs ++ ys)).paths =
      orThen (f.search reenter identifier xs) (f.search reenter identifier ys) :=
    f.search_append reenter identifier xs ys
  rw [Provider.resolve, resolve_eq, hsearch, orThen, searchAsked, bind_assoc, bind_assoc]

/-- Split folders end as the whole does, or else with the fault in which the listing of a part ends;
or a module says itself that a component is missing, which ends the whole, while a choice takes it
for the answer of the part. -/
def EndsAlike (files : SiteTree) (parts : List (List Path))
    (whole split : Except Fault Source × Session) : Prop :=
  SameEnd whole split ∨
    (∃ bases ∈ parts, ∃ fault,
      Looks files (f.over bases).list (.error fault) ∧ split.1 = .error fault) ∨
    ∃ bases ∈ parts, ∃ base ∈ bases, ∃ fault,
      f.Misleads files reenter identifier base fault ∧ whole.1 = .error fault

variable {reenter} (hblind : ∀ html page, Blind files (reenter html page))
include hblind

/-- After a search of the first part in vain, the second part is asked as the rest of the whole is
searched. -/
theorem endsAlike_second (held : Option ProducerFailure) (s : Session) :
    f.EndsAlike reenter identifier files [xs, ys]
      ((goOn (f.search reenter identifier ys) (.missed held) >>=
        conclude ((f.over (xs ++ ys)).absent identifier)).exec files s)
      ((goOn (f.askOver reenter identifier ys) (.missed held) >>=
        conclude (f.absentSplit xs ys reenter identifier)).exec files s) := by
  have hclosed : Blind files ((f.over ys).search reenter identifier ys) :=
    closed_search (closed_blind files) hblind (keepsOnly_of_all (fun _ => trivial) _ _) identifier
      fun _ h => h
  have hsearch : Blind files (f.search reenter identifier ys) := hclosed
  obtain ⟨after, hasked, hwork⟩ := hsearch.exec_asked identifier s
  have hgo (next : Engine Finding) (last : Finding → Engine Source) :
      goOn next (.missed held) >>= last = next >>= fun r => last (r.since held) := by
    simp only [goOn, bind_assoc, pure_bind]
  have hblames : Blames files (f.SearchFault files reenter identifier ys) _ :=
    f.blames_search identifier ys
  have hfault := hblames s
  rw [hgo, hgo, exec_bind, exec_bind _ _ (f.askOver reenter identifier ys)]
  cases hsearch : (f.search reenter identifier ys).exec files s with
  | mk result before =>
      rw [hsearch] at hasked hwork hfault
      cases result with
      | error fault =>
          rcases hfault fault rfl with hbreaks | ⟨base, hbase, hmisleads⟩
          · rw [f.exec_askOver_of_error reenter identifier hbreaks hasked]
            exact .inl ⟨rfl, hwork⟩
          · exact .inr (.inr ⟨ys, by simp, base, hbase, fault, hmisleads, rfl⟩)
      | ok r =>
          rw [f.exec_askOver_of_ok reenter identifier hasked]
          have hsame := f.sameEnd_conclude xs ys reenter identifier files hwork
          cases r with
          | found source => exact .inl (hsame _)
          | missed other =>
              cases other with
              | some failure => exact .inl (hsame _)
              | none =>
                  obtain ⟨listed, hlooks⟩ := (f.over ys).exists_looks_list files
                  simp only [thenList, exec_bind, hlooks after]
                  cases listed with
                  | ok ids => exact .inl (hsame _)
                  | error fault => exact .inr (.inl ⟨ys, by simp, fault, hlooks, rfl⟩)

/-- Folders that are split in two find what the whole finds, by the same work, unless the listing of
a part fails or a module says itself that a component is missing. -/
theorem endsAlike_split (s : Session) :
    f.EndsAlike reenter identifier files [xs, ys]
      (((Provider.folders (f.over (xs ++ ys))).resolve reenter identifier).exec files s)
      (((Provider.choice [.folders (f.over xs), .folders (f.over ys)]).resolve reenter
        identifier).exec files s) := by
  have hfault : ∀ fault, ((f.searchAsked reenter identifier xs).exec files s).1 = .error fault →
      f.SearchFault files reenter identifier xs fault :=
    Blames.bind (fun _ _ h => by cases h) (fun _ => f.blames_search identifier xs) s
  rw [resolve_over_append, resolve_split, exec_bind,
    exec_bind _ _ (f.askOver reenter identifier xs)]
  cases hsearch : (f.searchAsked reenter identifier xs).exec files s with
  | mk result after =>
      rw [hsearch] at hfault
      have hsame := Session.SameWork.refl after
      cases result with
      | error fault =>
          rcases hfault fault rfl with hbreaks | ⟨base, hbase, hmisleads⟩
          · rw [f.exec_askOver_of_error reenter identifier hbreaks hsearch]
            exact .inl ⟨rfl, hsame⟩
          · exact .inr (.inr ⟨xs, by simp, base, hbase, fault, hmisleads, rfl⟩)
      | ok r =>
          rw [f.exec_askOver_of_ok reenter identifier hsearch]
          cases r with
          | found source => exact .inl ⟨rfl, hsame⟩
          | missed held =>
              have hsecond := f.endsAlike_second xs ys identifier hblind held after
              cases held with
              | some failure => exact hsecond
              | none =>
                  obtain ⟨listed, hlooks⟩ := (f.over xs).exists_looks_list files
                  simp only [thenList, exec_bind _ _ (f.over xs).list, hlooks after]
                  cases listed with
                  | ok ids => exact hsecond
                  | error fault => exact .inr (.inl ⟨xs, by simp, fault, hlooks, rfl⟩)

end Split

end Folders

/-! ## Both ways of putting providers together -/

/-- However providers are grouped, the same is found by the same work and the same is listed: for
folders that are split in two, unless the listing of a part fails or a module says itself that a
component is missing; for choices of providers, and of
anything else that can be asked, that can be listed. -/
theorem Provider.choice_regroups (files : SiteTree) (identifier : Text) (s : Session) :
    (∀ (c : Compiler) (nesting : Nat) (f : Folders) (xs ys : List Path),
      f.EndsAlike (c.compileNested nesting) identifier files [xs, ys]
        (((folders (f.over (xs ++ ys))).resolve (c.compileNested nesting) identifier).exec files s)
        (((choice [folders (f.over xs), folders (f.over ys)]).resolve (c.compileNested nesting)
          identifier).exec files s) ∧
      (choice [folders (f.over xs), folders (f.over ys)]).list =
        (folders (f.over (xs ++ ys))).list) ∧
    (∀ (reenter : Reentry) (ps qs : List Provider),
      ((∀ p ∈ ps ++ qs, ∃ ids, Looks files p.list (.ok ids)) →
        ((choice [choice ps, choice qs]).resolve reenter identifier).exec files s =
          ((choice (ps ++ qs)).resolve reenter identifier).exec files s) ∧
      (choice [choice ps, choice qs]).list = (choice (ps ++ qs)).list) ∧
    ∀ cs ds : List Catalog,
      ((∀ c ∈ cs ++ ds, c.Lists files) →
        ((Catalog.choice [.choice cs, .choice ds]).find identifier).exec files s =
          ((Catalog.choice (cs ++ ds)).find identifier).exec files s) ∧
      (Catalog.choice [.choice cs, .choice ds]).list = (Catalog.choice (cs ++ ds)).list := by
  have hgroup (reenter : Reentry) (ps qs : List Provider) :
      (choice [choice ps, choice qs]).catalog reenter =
        .choice [.choice (ps.map (catalog reenter)), .choice (qs.map (catalog reenter))] := by
    simp only [catalog_choice, List.map_cons, List.map_nil]
  have hflat (reenter : Reentry) (ps qs : List Provider) :
      (choice (ps ++ qs)).catalog reenter =
        .choice (ps.map (catalog reenter) ++ qs.map (catalog reenter)) := by
    rw [catalog_choice, List.map_append]
  refine ⟨fun c nesting f xs ys => ⟨?_, ?_⟩, fun reenter ps qs => ⟨fun hlists => ?_, ?_⟩,
    fun cs ds => ⟨fun hlists => ?_, Catalog.list_choice_pair cs ds⟩⟩
  · exact f.endsAlike_split xs ys identifier (c.blind_compileNested files nesting) s
  · have hlist := f.list_split xs ys (c.compileNested nesting)
    have hpair := congrArg Catalog.list (catalog_choice (c.compileNested nesting)
      [folders (f.over xs), folders (f.over ys)])
    exact hpair.trans hlist
  · have hall : ∀ c ∈ ps.map (catalog reenter) ++ qs.map (catalog reenter), c.Lists files := by
      intro c hc
      rw [← List.map_append] at hc
      obtain ⟨p, hp, rfl⟩ := List.mem_map.mp hc
      exact hlists p hp
    have hfind := Catalog.exec_choice_pair hall identifier s
    rw [← hgroup, ← hflat] at hfind
    exact hfind
  · have hlist := Catalog.list_choice_pair (ps.map (catalog reenter)) (qs.map (catalog reenter))
    rw [← hgroup, ← hflat] at hlist
    exact hlist
  · exact Catalog.exec_choice_pair hlists identifier s

/-- A compiler of pages without components. -/
def bareCompiler : Compiler := ⟨.choice [], 50⟩

def cardTable : Provider := .ofEntries [("Card", .text "c")]

def logoTable : Provider := .ofEntries [("Logo", .text "l")]

/-- Folders of which the suffix makes no pattern together with the star before it. -/
def starredFolders : Folders := { Folders.ofPaths [] with markupSuffix := "**" }

def starredFiles : SiteTree :=
  ⟨.folder [("a", .folder [("x.txt", .file (.bytes [120]))]),
    ("b", .folder [("Card**", .file (.bytes [67]))])], []⟩

/-- The regrouped tables find the second table's component, and the split folders go on alike. -/
theorem choice_regroups_tables :
    (∀ p ∈ [cardTable] ++ [logoTable], ∃ ids, Looks starredFiles p.list (.ok ids)) ∧
      (((Provider.choice [.choice [cardTable], .choice [logoTable]]).resolve
        (bareCompiler.compileNested 0) "Logo").exec starredFiles .start).1 =
          .ok ⟨"Logo", some "l", .none, none⟩ ∧
      (Folders.ofPaths []).EndsAlike (bareCompiler.compileNested 0) "Card" starredFiles
        [[Path.ofText "a"], [Path.ofText "b"]]
        (((Provider.folders ((Folders.ofPaths []).over [Path.ofText "a", Path.ofText "b"])).resolve
          (bareCompiler.compileNested 0) "Card").exec starredFiles .start)
        (((Provider.choice [.folders ((Folders.ofPaths []).over [Path.ofText "a"]),
          .folders ((Folders.ofPaths []).over [Path.ofText "b"])]).resolve
            (bareCompiler.compileNested 0) "Card").exec starredFiles .start) := by
  have hlists : ∀ p ∈ [cardTable] ++ [logoTable], ∃ ids, Looks starredFiles p.list (.ok ids) := by
    intro p hp
    simp only [List.cons_append, List.nil_append, List.mem_cons, List.not_mem_nil, or_false] at hp
    rcases hp with rfl | rfl
    · exact ⟨["Card"], fun _ => rfl⟩
    · exact ⟨["Logo"], fun _ => rfl⟩
  have hlogo := (Provider.choice_regroups starredFiles "Logo" .start).2.1
    (bareCompiler.compileNested 0) [cardTable] [logoTable]
  have hcard := (Provider.choice_regroups starredFiles "Card" .start).1 bareCompiler 0
    (Folders.ofPaths []) [Path.ofText "a"] [Path.ofText "b"]
  exact ⟨hlists, congrArg Prod.fst (hlogo.1 hlists), hcard.1⟩

/-- With a suffix that makes no pattern, the whole finds a component where the split folders break
off, as the first part lists what it has. -/
theorem split_breaks_off :
    (((Provider.folders (starredFolders.over [Path.ofText "a", Path.ofText "b"])).resolve
        (bareCompiler.compileNested 0) "Card").exec starredFiles .start).1 =
          .ok ⟨"Card", some "C", .none, some "b/Card**"⟩ ∧
      (((Provider.choice [.folders (starredFolders.over [Path.ofText "a"]),
        .folders (starredFolders.over [Path.ofText "b"])]).resolve
          (bareCompiler.compileNested 0) "Card").exec starredFiles .start).1 = .error .badPattern ∧
      ¬SameEnd (((Provider.folders (starredFolders.over [Path.ofText "a", Path.ofText "b"])).resolve
          (bareCompiler.compileNested 0) "Card").exec starredFiles .start)
        (((Provider.choice [.folders (starredFolders.over [Path.ofText "a"]),
          .folders (starredFolders.over [Path.ofText "b"])]).resolve
            (bareCompiler.compileNested 0) "Card").exec starredFiles .start) := by
  refine ⟨rfl, rfl, ?_⟩
  rintro ⟨hresult, -⟩
  cases hresult

end StaticSite
