import StaticSite.Proofs.Component.Leak

/-!
# Look-ups without site code

Where no code of a site has a say, a look-up has one outcome for each identifier, whatever came
before, and asks for nothing but that identifier.
-/

namespace StaticSite

open Markup Engine

namespace Engine

variable {α β : Type} {files : SiteTree} {events : Event → Prop} {post : α → Prop} {act : Engine α}

/-- The action has one outcome, of which `post` holds if it is a result, and adds none but the
given events to the trace. -/
def Steady (files : SiteTree) (events : Event → Prop) (post : α → Prop) (act : Engine α) : Prop :=
  ∃ outcome, Outcome post (fun _ => True) outcome ∧
    Ends files act fun result added => result = outcome ∧ ∀ e ∈ added, events e.2

namespace Steady

theorem pure {a : α} (h : post a) : Steady files events post (Pure.pure a) :=
  ⟨.ok a, h, ends_pure ⟨rfl, by simp⟩⟩

theorem throw (fault : Fault) : Steady files events post (throw fault : Engine α) :=
  ⟨.error fault, trivial, ends_throw ⟨rfl, by simp⟩⟩

theorem ofExcept (result : Except Fault α) :
    Steady files events (fun _ => True) (Engine.ofExcept result) :=
  ⟨result, by cases result <;> trivial, ends_ofExcept ⟨rfl, by simp⟩⟩

theorem of_peeks {blame : Fault → Prop} (h : Peeks files blame act) :
    Steady files events (fun _ => True) act := by
  obtain ⟨result, hlooks, -⟩ := h
  refine ⟨result, ?_, hlooks.ends ⟨rfl, by simp⟩⟩
  cases result <;> trivial

theorem bind {next : α → Engine β} {last : β → Prop} (h : Steady files events post act)
    (hnext : ∀ a, post a → Steady files events last (next a)) :
    Steady files events last (act >>= next) := by
  obtain ⟨outcome, houtcome, hends⟩ := h
  cases outcome with
  | error fault =>
      refine ⟨.error fault, trivial, hends.bind ?_ ?_⟩
      · rintro a _ ⟨ha, -⟩
        cases ha
      · rintro other added ⟨hother, hadded⟩
        cases hother
        exact ⟨rfl, hadded⟩
  | ok a =>
      obtain ⟨last, hlast, hmore⟩ := hnext a houtcome
      refine ⟨last, hlast, hends.bind ?_ ?_⟩
      · rintro b added ⟨hb, hadded⟩
        cases hb
        refine hmore.mono fun result more h => ⟨h.1, fun e he => ?_⟩
        rcases List.mem_append.mp he with he | he
        · exact hadded e he
        · exact h.2 e he
      · rintro fault _ ⟨hfault, -⟩
        cases hfault

theorem after_record {next : Unit → Engine α} (h : Steady files events post (next ()))
    (level : Level) (logger : Logger) (message : Text) :
    Steady files events post (record level logger message >>= next) := by
  obtain ⟨outcome, houtcome, hends⟩ := h
  exact ⟨outcome, houtcome, hends.after_record level logger message⟩

theorem after_note {next : Unit → Engine α} {event : Event} (hevent : events event)
    (h : Steady files events post (next ())) :
    Steady files events post (note event >>= next) := by
  obtain ⟨outcome, houtcome, hends⟩ := h
  refine ⟨outcome, houtcome, Ends.after_note fun context => hends.mono ?_⟩
  rintro result added ⟨hresult, hadded⟩
  refine ⟨hresult, fun e he => ?_⟩
  rcases List.mem_cons.mp he with rfl | he
  · exact hevent
  · exact hadded e he

theorem attempt (h : Steady files events post act) :
    Steady files events (Outcome post fun _ => True) (Engine.attempt act) := by
  obtain ⟨outcome, houtcome, hends⟩ := h
  refine ⟨held outcome, ?_, hends.attempt.mono ?_⟩
  · cases outcome with
    | ok a => exact houtcome
    | error fault =>
        rw [held]
        split <;> trivial
  · rintro result added ⟨other, rfl, rfl, hadded⟩
    exact ⟨rfl, hadded⟩

end Steady

theorem steady_isFile (p : Path) : Steady files events (fun _ => True) (isFile p) := by
  refine ⟨_, ?_, looks_isFile.ends ⟨rfl, by simp⟩⟩
  cases seen files p <;> trivial

theorem steady_readText (encoding : Text.Encoding) (p : Path) :
    Steady files events (fun _ => True) (readText encoding p) :=
  .of_peeks (peeks_readText encoding p)

end Engine

/-- There is no module that the folders can load. -/
def CodeFree (leaves : List Folders) (files : SiteTree) : Prop :=
  ∀ f ∈ leaves, ∀ path module kept,
    Loading.loaded files f.runtime path ≠ .ready module kept

def Node.isCode : Node Content → Bool
  | .file (.code _) => true
  | _ => false

theorem Node.isCode_get? {n m : Node Content} {place : List Text} (hself : n.isCode = false)
    (h : ∀ d ∈ n.descendants, d.2.isCode = false) (hm : n.get? place = some m) :
    m.isCode = false := by
  by_cases hplace : place = []
  · subst hplace
    cases hm
    exact hself
  · exact h _ (Node.mem_descendants hm hplace)

/-- Where no runtime knows a language, files that are not known to make modules make none. -/
theorem codeFree_of_get? {leaves : List Folders} {files : SiteTree}
    (hplain : ∀ f ∈ leaves, f.runtime = .plain)
    (h : ∀ place n, files.root.get? place = some n → n.isCode = false) : CodeFree leaves files := by
  intro f hf path module kept hloaded
  rw [hplain f hf] at hloaded
  obtain ⟨p, hfind⟩ := Loading.exists_code_of_loaded_plain hloaded
  cases h _ _ (Tree.find_eq_ok_iff.mp hfind).2

theorem codeFree_of_descendants {leaves : List Folders} {files : SiteTree}
    (hplain : ∀ f ∈ leaves, f.runtime = .plain) (hroot : files.root.isCode = false)
    (h : ∀ d ∈ files.root.descendants, d.2.isCode = false) : CodeFree leaves files :=
  codeFree_of_get? hplain fun _ _ => Node.isCode_get? hroot h

theorem CodeFree.mild {loose : Fault → Prop} {leaves : List Folders} {files : SiteTree}
    (h : CodeFree leaves files) : MildFiles loose leaves files :=
  fun f hf path module kept hloaded => absurd hloaded (h f hf path module kept)

namespace Folders

variable {files : SiteTree} {reenter : Reentry} {events : Event → Prop}

theorem steady_readMarkup (f : Folders) (p : Path) :
    Steady files events (fun _ => True) (f.readMarkup p) := by
  refine (steady_isFile p).bind fun there _ => ?_
  cases there with
  | false => exact .pure trivial
  | true =>
      refine (steady_readText f.encoding p).attempt.bind fun outcome _ => ?_
      cases outcome with
      | ok markup => exact .pure trivial
      | error fault =>
          cases hfile : fault.isFileFault with
          | false =>
              simp only [hfile]
              exact .throw _
          | true =>
              simp only [hfile]
              refine Steady.after_record ?_ _ _ _
              exact .pure trivial

variable {f : Folders}

theorem steady_loadProducer (hfree : CodeFree [f] files) (identifier : Text) (p : Path) :
    Steady files events (fun value => value.isNone) (f.loadProducer reenter identifier p) := by
  have hload : Steady files events (fun loading => loading = Loading.loaded files f.runtime p)
      (Loading.ofFile .direct f.runtime p) :=
    ⟨.ok _, rfl, (Loading.looks_ofFile p).ends ⟨rfl, by simp⟩⟩
  refine hload.bind fun loading h => ?_
  cases loading with
  | unknown => exact .pure rfl
  | unlinked fault => exact .throw _
  | broken cause => exact .throw _
  | ready module kept => exact absurd h.symm (hfree f (List.mem_singleton_self f) p module kept)

theorem steady_resolveAt (hfree : CodeFree [f] files) (identifier : Text) (base : Path) :
    Steady files events (fun source => ∀ found ∈ source, found.producer.isProducer = false)
      (f.resolveAt reenter identifier base) := by
  refine (steady_readMarkup f _).bind fun markup _ => ?_
  cases markup with
  | some markup => exact .pure fun _ h => by cases h; rfl
  | none =>
      refine (steady_isFile _).bind fun there _ => ?_
      cases there with
      | false => exact .pure fun _ h => by cases h
      | true =>
          refine (steady_loadProducer hfree identifier _).bind fun value hvalue => ?_
          rw [if_pos hvalue]
          exact .pure fun _ h => by cases h

theorem steady_resolveFrom (hfree : CodeFree [f] files) (identifier : Text)
    (held : Option Fault) (bases : List Path) :
    Steady files events (fun source => source.producer.isProducer = false)
      (f.resolveFrom reenter identifier held bases) := by
  unfold resolveFrom
  induction bases generalizing held with
  | nil =>
      cases held with
      | some fault => exact .throw _
      | none => exact (Steady.of_peeks (peeks_list f)).bind fun _ _ => .throw _
  | cons base bases ih =>
      rw [resolveFromVia]
      refine (steady_resolveAt hfree identifier base).attempt.bind fun outcome h => ?_
      cases outcome with
      | ok found =>
          cases found with
          | some source => exact .pure (h source rfl)
          | none => exact ih held
      | error fault =>
          cases fault with
          | producerFailed => exact ih _
          | _ => exact .throw _

end Folders

namespace Provider

mutual

/-- No code of a site has a say in what the provider finds. -/
def IsStatic : Provider → Prop
  | .table entries => ∀ e ∈ entries.entries, e.2.isProducer = false
  | .function _ => False
  | .folders _ => True
  | .choice providers => AllStatic providers

def AllStatic : List Provider → Prop
  | [] => True
  | p :: ps => p.IsStatic ∧ AllStatic ps

end

section Resolve

variable {files : SiteTree} {reenter : Reentry}

theorem steady_resolveTable {entries : Table Value}
    (h : ∀ e ∈ entries.entries, e.2.isProducer = false) (identifier : Text)
    {events : Event → Prop} :
    Steady files events (fun source => source.producer.isProducer = false)
      (resolveTable entries identifier) := by
  unfold resolveTable
  cases hget : entries.get? (normalize identifier) with
  | none => exact .throw _
  | some value =>
      have hvalue := h _ (Table.mem_of_get?_eq_some hget)
      cases value with
      | text markup => exact .pure rfl
      | producer run => cases hvalue
      | _ => exact .pure rfl

mutual

theorem steady_resolve (identifier : Text) : (p : Provider) → CodeFree p.leaves files →
    p.IsStatic → Steady files (· = .asked identifier)
      (fun source => source.producer.isProducer = false) (p.resolve reenter identifier)
  | .table entries, _, hp => by
      rw [resolve]
      exact Steady.after_note rfl (steady_resolveTable hp identifier)
  | .function lookUp, _, hp => hp.elim
  | .folders f, hfree, _ => by
      rw [resolve]
      exact Steady.after_note rfl (f.steady_resolveFrom hfree identifier none f.paths)
  | .choice ps, hfree, hp => by
      rw [resolve]
      refine (steady_resolveFirst identifier ps hfree hp none).bind fun found h => ?_
      cases found with
      | some source => exact .pure (h source rfl)
      | none => exact (Steady.of_peeks (peeks_listAll ps)).bind fun _ _ => .throw _

theorem steady_resolveFirst (identifier : Text) :
    (ps : List Provider) → CodeFree (allLeaves ps) files → AllStatic ps →
    (held : Option Fault) →
    Steady files (· = .asked identifier)
      (fun found => ∀ source ∈ found, source.producer.isProducer = false)
      (resolveFirst reenter identifier held ps)
  | [], _, _, some fault => by
      rw [resolveFirst]
      exact .throw _
  | [], _, _, none => by
      rw [resolveFirst]
      exact .pure fun _ h => by cases h
  | p :: ps, hfree, hp, held => by
      have hfirst : CodeFree p.leaves files := fun f hf => hfree f (List.mem_append_left _ hf)
      have hlater : CodeFree (allLeaves ps) files :=
        fun f hf => hfree f (List.mem_append_right _ hf)
      rw [resolveFirst]
      refine (steady_resolve identifier p hfirst hp.1).attempt.bind fun outcome h => ?_
      cases outcome with
      | ok source => exact .pure fun _ hsource => by cases hsource; exact h
      | error fault =>
          cases fault with
          | producerFailed => exact steady_resolveFirst identifier ps hlater hp.2 _
          | componentNotFound => exact steady_resolveFirst identifier ps hlater hp.2 _
          | _ => exact .throw _

end

end Resolve

end Provider

/-- Without a producer there is nothing to run, and what a component renders to does not depend on
props. -/
theorem Source.exists_render_eq {source : Source} (h : source.producer.isProducer = false) :
    ∃ result, ∀ reenter props, source.render reenter props = Engine.ofExcept result := by
  unfold render
  cases source.markup with
  | some markup => exact ⟨.ok markup, fun _ _ => rfl⟩
  | none =>
      cases hvalue : source.producer with
      | producer call =>
          rw [hvalue] at h
          cases h
      | _ => exact ⟨_, fun _ _ => rfl⟩

end StaticSite
