import StaticSite.Component.Provider

/-!
# Searching in order

Folders go through their bases, and a choice goes through its providers, in the same way: what is
found first counts, and when nothing is found the first producer that failed decides the fault. Both
are written here as `inOrder`, which takes a concatenation of lists to one search after the other.
-/

namespace StaticSite

open Engine

/-- How a producer failed. -/
structure ProducerFailure where
  identifier : Text
  location : Option Text
  cause : Fault

def ProducerFailure.fault (failure : ProducerFailure) : Fault :=
  .producerFailed failure.identifier failure.location failure.cause

/-- What a search has come to: a component, or none, with the first failure of a producer if there
was one. -/
inductive Finding
  | found (source : Source)
  | missed (first : Option ProducerFailure)

/-- What a search comes to that follows one in vain, from which a failure may be held. -/
def Finding.since (held : Option ProducerFailure) : Finding → Finding
  | found source => found source
  | missed first => missed (held.or first)

theorem Finding.since_none (r : Finding) : r.since none = r := by
  cases r <;> rfl

theorem Finding.since_since (first held : Option ProducerFailure) (r : Finding) :
    (r.since held).since first = r.since (first.or held) := by
  cases r with
  | found source => rfl
  | missed last => exact congrArg missed Option.or_assoc.symm

/-- A fault that breaks a search off, as it does not say that a component is missing. -/
def Fault.Breaks (fault : Fault) : Prop := fault.isMissing = false

theorem Fault.breaks_of_stops {fault : Fault} (h : fault.stops) : fault.Breaks := by
  cases fault with
  | stopped => rfl
  | _ => cases h

namespace Engine

/-- What is done once a search has come to something: after one in vain the next is made. -/
def goOn (next : Engine Finding) : Finding → Engine Finding
  | .found source => pure (.found source)
  | .missed held => do return (← next).since held

/-- Makes the next search unless something is found. -/
def orThen (act next : Engine Finding) : Engine Finding := act >>= goOn next

theorem missed_orThen (next : Engine Finding) : orThen (pure (.missed none)) next = next := by
  simp only [orThen, pure_bind, goOn, Finding.since_none, bind_pure]

theorem orThen_missed (act : Engine Finding) : orThen act (pure (.missed none)) = act := by
  have hgo : goOn (pure (.missed none)) = pure := by
    funext r
    cases r with
    | found source => rfl
    | missed held => cases held <;> rfl
  rw [orThen, hgo, bind_pure]

theorem orThen_assoc (act next last : Engine Finding) :
    orThen (orThen act next) last = orThen act (orThen next last) := by
  simp only [orThen, bind_assoc]
  apply bind_congr
  intro first
  cases first with
  | found source => simp only [goOn, pure_bind]
  | missed held =>
      simp only [goOn, bind_assoc, pure_bind]
      apply bind_congr
      intro second
      cases second with
      | found source => rfl
      | missed other =>
          have hsince : (Finding.missed other).since held = .missed (held.or other) := rfl
          simp only [hsince, Finding.since_since, bind_assoc, pure_bind]

/-- Makes searches one after another until something is found. -/
def inOrder : List (Engine Finding) → Engine Finding
  | [] => pure (.missed none)
  | act :: acts => orThen act (inOrder acts)

theorem inOrder_append (acts more : List (Engine Finding)) :
    inOrder (acts ++ more) = orThen (inOrder acts) (inOrder more) := by
  induction acts with
  | nil => exact (missed_orThen _).symm
  | cons act acts ih =>
      calc inOrder (act :: (acts ++ more))
          = orThen act (orThen (inOrder acts) (inOrder more)) := congrArg (orThen act) ih
        _ = orThen (inOrder (act :: acts)) (inOrder more) := (orThen_assoc _ _ _).symm

/-- The component that a search found, or the fault of the failure that it held, or, without
either, what is done otherwise. -/
def conclude (otherwise : Engine Source) : Finding → Engine Source
  | .found source => pure source
  | .missed (some failure) => throw failure.fault
  | .missed none => otherwise

/-- What an answer means for a search: a fault that says there is no component is held, any other
ends the search. -/
def heard : Except Fault Source → Except Fault Finding
  | .ok source => .ok (.found source)
  | .error fault =>
      match fault with
      | .producerFailed identifier location cause =>
          .ok (.missed (some ⟨identifier, location, cause⟩))
      | .componentNotFound .. => .ok (.missed none)
      | _ => .error fault

/-- Ends an action in another way, told by how it has ended. -/
def endAs {α β : Type} (told : Except Fault α → Except Fault β) (act : Engine α) : Engine β :=
  attempt act >>= fun outcome => Engine.ofExcept (told outcome)

/-- Asks for a component. -/
def ask (act : Engine Source) : Engine Finding := endAs heard act

section Exec

variable {α β : Type} {files : SiteTree}

theorem heard_of_breaks {fault : Fault} (h : fault.Breaks) :
    heard (.error fault) = .error fault := by
  cases fault with
  | producerFailed | componentNotFound => cases h
  | _ => rfl

theorem exec_endAs {told : Except Fault α → Except Fault β}
    (htold : ∀ fault, fault.stops → told (.error fault) = .error fault) (act : Engine α)
    (s : Session) :
    (endAs told act).exec files s = (told (act.exec files s).1, (act.exec files s).2) := by
  have hof (result : Except Fault β) (t : Session) :
      (Engine.ofExcept result).exec files t = (result, t) := by
    cases result <;> rfl
  rw [endAs, exec_bind, exec_attempt]
  cases act.exec files s with
  | mk result after =>
      cases result with
      | ok a => exact hof _ after
      | error fault =>
          by_cases hstops : fault.stops
          · simp only [hstops, if_true, htold fault hstops]
          · simp only [hstops]
            exact hof _ after

theorem exec_ask (act : Engine Source) (s : Session) :
    (ask act).exec files s = (heard (act.exec files s).1, (act.exec files s).2) :=
  exec_endAs (fun _ hstops => heard_of_breaks (Fault.breaks_of_stops hstops)) act s

end Exec

end Engine

/-! ## Folders -/

namespace Folders

/-- What the outcome of one base means for a search: the failure of a producer is held, any other
fault ends the search. -/
def noticed : Except Fault (Option Source) → Except Fault Finding
  | .ok (some source) => .ok (.found source)
  | .ok none => .ok (.missed none)
  | .error fault =>
      match fault with
      | .producerFailed identifier location cause =>
          .ok (.missed (some ⟨identifier, location, cause⟩))
      | _ => .error fault

/-- Looks for a component in one base. -/
def visit (act : Engine (Option Source)) : Engine Finding := endAs noticed act

theorem noticed_of_stops {fault : Fault} (h : fault.stops) :
    noticed (.error fault) = .error fault := by
  cases fault with
  | stopped => rfl
  | _ => cases h

theorem exec_visit {files : SiteTree} (act : Engine (Option Source)) (s : Session) :
    (visit act).exec files s = (noticed (act.exec files s).1, (act.exec files s).2) :=
  exec_endAs (fun _ => noticed_of_stops) act s

section Via

variable (a : Access) (f : Folders) (reenter : Reentry) (identifier : Text)

def searchVia (bases : List Path) : Engine Finding :=
  inOrder (bases.map fun base => visit (resolveAtVia a f reenter identifier base))

theorem searchVia_cons (base : Path) (bases : List Path) :
    searchVia a f reenter identifier (base :: bases) =
      orThen (visit (resolveAtVia a f reenter identifier base))
        (searchVia a f reenter identifier bases) :=
  rfl

/-- Says that no base has the component, and what there is instead. -/
def absentVia : Engine Source := do
  throw (.componentNotFound identifier (f.paths.map Path.text) (← listVia a f))

theorem resolveFromVia_eq (held : Option ProducerFailure) (bases : List Path) :
    resolveFromVia a f reenter identifier (held.map ProducerFailure.fault) bases =
      searchVia a f reenter identifier bases >>= fun r =>
        conclude (absentVia a f identifier) (r.since held) := by
  induction bases generalizing held with
  | nil => cases held <;> rfl
  | cons base bases ih =>
      rw [resolveFromVia, searchVia_cons, orThen, visit, endAs, bind_assoc, bind_assoc]
      apply bind_congr
      intro outcome
      cases outcome with
      | ok found =>
          cases found with
          | some source => rfl
          | none =>
              simp only [noticed, Engine.ofExcept, pure_bind, goOn, Finding.since_none, bind_pure,
                ih]
      | error fault =>
          cases fault with
          | producerFailed other location cause =>
              have hheld : (held.map ProducerFailure.fault).or
                  (some (.producerFailed other location cause)) =
                    (held.or (some ⟨other, location, cause⟩)).map ProducerFailure.fault := by
                cases held <;> rfl
              simp only [noticed, Engine.ofExcept, pure_bind, goOn, bind_assoc,
                Finding.since_since, hheld, ih]
          | _ => rfl

theorem resolveVia_eq : resolveVia a f reenter identifier =
    searchVia a f reenter identifier f.paths >>= conclude (absentVia a f identifier) := by
  have h := resolveFromVia_eq a f reenter identifier none f.paths
  simp only [Finding.since_none] at h
  exact h

end Via

variable (f : Folders) (reenter : Reentry) (identifier : Text)

def search (bases : List Path) : Engine Finding := searchVia .direct f reenter identifier bases

theorem search_cons (base : Path) (bases : List Path) :
    f.search reenter identifier (base :: bases) =
      orThen (visit (f.resolveAt reenter identifier base)) (f.search reenter identifier bases) :=
  rfl

theorem search_append (bases more : List Path) :
    f.search reenter identifier (bases ++ more) =
      orThen (f.search reenter identifier bases) (f.search reenter identifier more) := by
  unfold search searchVia
  rw [List.map_append]
  exact inOrder_append _ _

def absent : Engine Source := absentVia .direct f identifier

theorem resolve_eq : f.resolve reenter identifier =
    f.search reenter identifier f.paths >>= conclude (f.absent identifier) :=
  resolveVia_eq .direct f reenter identifier

end Folders

/-! ## Choices -/

/-- Anything that can be asked for a component and for a list of those it has. -/
structure Catalog where
  find : Text → Engine Source
  list : Engine (List Text)

namespace Catalog

def listAll : List Catalog → Engine (List Text)
  | [] => pure []
  | c :: cs => do return (← c.list) ++ (← listAll cs)

theorem listAll_append (cs more : List Catalog) :
    listAll (cs ++ more) = (do return (← listAll cs) ++ (← listAll more)) := by
  induction cs with
  | nil => simp only [List.nil_append, listAll, pure_bind, bind_pure]
  | cons c cs ih =>
      simp only [List.cons_append, listAll, ih, bind_assoc, pure_bind, List.append_assoc]

/-- Says that no catalog has the component, and what there is instead. -/
def absent (cs : List Catalog) (identifier : Text) : Engine Source := do
  throw (.componentNotFound identifier [] (Text.sortedSet (← listAll cs)))

/-- Asks catalogs in order for a component. -/
def choice (cs : List Catalog) : Catalog where
  find identifier :=
    inOrder (cs.map fun c => ask (c.find identifier)) >>= conclude (absent cs identifier)
  list := do return Text.sortedSet (← listAll cs)

end Catalog

namespace Provider

variable (reenter : Reentry)

/-- The provider as a catalog, with a way to compile for the site's code. -/
def catalog (p : Provider) : Catalog where
  find identifier := p.resolve reenter identifier
  list := p.list

theorem listAll_eq (ps : List Provider) :
    listAll ps = Catalog.listAll (ps.map (catalog reenter)) := by
  induction ps with
  | nil => rfl
  | cons p ps ih =>
      rw [listAll, ih]
      rfl

/-- What asking providers in order gives, as the code has it: a component, or none, or a fault. -/
def pick : Finding → Engine (Option Source)
  | .found source => pure (some source)
  | .missed (some failure) => throw failure.fault
  | .missed none => pure none

theorem resolveFirst_eq (identifier : Text) (held : Option ProducerFailure)
    (ps : List Provider) :
    resolveFirst reenter identifier (held.map ProducerFailure.fault) ps =
      inOrder (ps.map fun p => ask (p.resolve reenter identifier)) >>= fun r =>
        pick (r.since held) := by
  induction ps generalizing held with
  | nil => cases held <;> rfl
  | cons p ps ih =>
      rw [resolveFirst, List.map_cons, inOrder, orThen, ask, endAs, bind_assoc, bind_assoc]
      apply bind_congr
      intro outcome
      cases outcome with
      | ok source => rfl
      | error fault =>
          cases fault with
          | producerFailed other location cause =>
              have hheld : (held.map ProducerFailure.fault).or
                  (some (.producerFailed other location cause)) =
                    (held.or (some ⟨other, location, cause⟩)).map ProducerFailure.fault := by
                cases held <;> rfl
              simp only [heard, Engine.ofExcept, pure_bind, goOn, bind_assoc, Finding.since_since,
                hheld, ih]
          | componentNotFound =>
              simp only [heard, Engine.ofExcept, pure_bind, goOn, Finding.since_none, bind_pure, ih]
          | _ => rfl

theorem resolve_choice (identifier : Text) (ps : List Provider) :
    (choice ps).resolve reenter identifier =
      (Catalog.choice (ps.map (catalog reenter))).find identifier := by
  have h := resolveFirst_eq reenter identifier none ps
  simp only [Finding.since_none, Option.map_none] at h
  simp only [resolve, h, listAll_eq reenter, bind_assoc, Catalog.choice, List.map_map]
  apply bind_congr
  intro r
  cases r with
  | found source => rfl
  | missed first => cases first <;> rfl

/-- A choice of providers does what the choice of their catalogs does. -/
theorem catalog_choice (ps : List Provider) :
    (choice ps).catalog reenter = .choice (ps.map (catalog reenter)) := by
  have hfind := fun identifier => resolve_choice reenter identifier ps
  have hlist : (choice ps).list = (Catalog.choice (ps.map (catalog reenter))).list := by
    rw [list, listAll_eq reenter]
    rfl
  unfold catalog
  rw [hlist]
  exact congrArg (Catalog.mk · _) (funext hfind)

end Provider

end StaticSite
