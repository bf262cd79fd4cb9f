import StaticSite.Proofs.Component.Loads

/-!
# Site code that does not stop the program

Site code may fail in any way short of a request to stop. Where the engine holds its faults up,
running it ends in a result or in a fault that says that there is no content. Where it does not,
some faults come through: `loose` says which. -/

namespace StaticSite

open Markup

/-- Faults that come through where a site's code fails with them and nothing holds them up. -/
structure LooseFaults (loose : Fault → Prop) : Prop where
  not_stops : ∀ {fault}, loose fault → fault.stops = false
  unworded : ∀ {kind fault}, loose (.unworded kind fault) → loose fault

/-- A fault that a guard holds up. One that cannot be worded fails again, and then comes through. -/
structure Fault.Guarded (loose : Fault → Prop) (fault : Fault) : Prop where
  not_stops : fault.stops = false
  unworded : ∀ kind other, fault = .unworded kind other → loose other

theorem LooseFaults.guarded {loose : Fault → Prop} (hloose : LooseFaults loose) {fault : Fault}
    (h : loose fault) : fault.Guarded loose := by
  refine ⟨hloose.not_stops h, ?_⟩
  rintro kind other rfl
  exact hloose.unworded h

theorem Fault.isMissing_or_loose_inProducer {loose : Fault → Prop} {fault : Fault}
    (h : fault.Guarded loose) (identifier : Text) (location : Option Text) :
    (fault.inProducer identifier location).isMissing ∨
      loose (fault.inProducer identifier location) := by
  cases fault with
  | unworded kind other => exact .inr (h.unworded kind other rfl)
  | _ => exact .inl rfl

/-- Of each result that the script can give `post` holds, and `blame` of each fault of its own. Only
a compile that is nested too deep is a fault of its own of those that compiles can end in. -/
def Script.Keeps {α : Type} (post : α → Prop) (blame : Fault → Prop) : Script α → Prop
  | done a => post a
  | fail fault => blame fault
  | context next => ∀ c, (next c).Keeps post blame
  | compile _ _ next => blame .nestedTooDeep ∧ ∀ out, (next out).Keeps post blame
  | newCounter next => ∀ n, (next n).Keeps post blame
  | count _ next => ∀ n, (next n).Keeps post blame

/-- Writing the value out fails only loosely. -/
def Value.Writes (loose : Fault → Prop) (value : Value) : Prop :=
  ∀ fault, value.write = .error fault → loose fault

/-- No code of the value asks to stop, and it fails only loosely where nothing holds its faults up.
-/
def Value.Mild (loose : Fault → Prop) : Value → Prop
  | producer call => ∀ props, (call props).Keeps (Value.Writes loose) (Fault.Guarded loose)
  | source identifier markup inner origin =>
      inner.Mild loose ∧ (source identifier markup inner origin).Writes loose
  | value => value.Writes loose

theorem Value.Mild.writes {loose : Fault → Prop} {value : Value} (h : value.Mild loose) :
    value.Writes loose := by
  cases value with
  | producer call => exact nofun
  | source identifier markup inner origin => exact h.2
  | _ => exact h

def Source.Mild (loose : Fault → Prop) (source : Source) : Prop := source.producer.Mild loose

/-- The fault says that there is no attribute of a name, and is no request to stop. -/
def Fault.DeniesName (fault : Fault) : Prop :=
  Folders.isNoAttribute fault ∧ fault.stops = false

/-- No code of the module asks to stop. Asked for a name that it does not export, it says so, or it
answers and then fails only loosely. -/
structure Module.Mild (loose : Fault → Prop) (module : Module) : Prop where
  body : ∀ name, (module.body name).Keeps (fun exports => ∀ e ∈ exports, e.2.Mild loose)
    (Fault.Guarded loose)
  missing : ∀ name,
    (module.missing name).Keeps (fun _ => False) (fun fault => fault.DeniesName ∨ loose fault) ∨
      (module.missing name).Keeps (Value.Mild loose) loose

/-- The modules that the folders can load are mild. -/
def MildFiles (loose : Fault → Prop) (leaves : List Folders) (files : SiteTree) : Prop :=
  ∀ f ∈ leaves, ∀ path module kept, Loading.loaded files f.runtime path = .ready module kept →
    module.Mild loose

mutual

/-- No code of the provider asks to stop. -/
def Provider.Mild (loose : Fault → Prop) : Provider → Prop
  | .table entries => ∀ e ∈ entries.entries, e.2.Mild loose
  | .function lookUp =>
      ∀ identifier, (lookUp identifier).Keeps (Value.Mild loose) (Fault.Guarded loose)
  | .folders _ => True
  | .choice providers => Provider.AllMild loose providers

def Provider.AllMild (loose : Fault → Prop) : List Provider → Prop
  | [] => True
  | p :: ps => p.Mild loose ∧ AllMild loose ps

end

namespace Engine

/-- An account of the faults that come through, told from what was added to the trace. -/
structure Escaping (loose : Fault → Prop) (escapes : List Entry → Fault → Prop) : Prop where
  guarded : ∀ {added fault}, escapes added fault → fault.Guarded loose
  append : ∀ {added more fault}, escapes more fault → escapes (added ++ more) fault

variable {files : SiteTree} {reenter : Reentry} {loose : Fault → Prop}
  {escapes : List Entry → Fault → Prop}

/-- A compile for the use of site code that fails only with a fault that comes through, or when it
is nested too deep. -/
def Gentle (files : SiteTree) (escapes : List Entry → Fault → Prop) (reenter : Reentry) : Prop :=
  ∀ html page, Ends files (reenter html page) fun result added =>
    Outcome (fun _ => True) (fun fault => fault = .nestedTooDeep ∨ escapes added fault) result

theorem ends_run {α : Type} {post : α → Prop} {blame : Fault → Prop}
    (hescaping : Escaping loose escapes) (hreenter : Gentle files escapes reenter)
    {script : Script α} (h : script.Keeps post blame) :
    Ends files (run reenter script) fun result added =>
      Outcome post (fun fault => blame fault ∨ escapes added fault) result := by
  induction script with
  | done a => exact ends_pure h
  | fail fault => exact ends_throw (.inl h)
  | context next ih => exact fun s => ih s.context (h s.context) s
  | compile html page next ih =>
      refine (hreenter html page).bind (fun out added _ => ?_) (fun fault added hfault => ?_)
      · refine (ih out (h.2 out)).mono fun result more hmore => ?_
        cases result with
        | ok a => exact hmore
        | error fault => exact hmore.imp_right hescaping.append
      · rcases hfault with rfl | hfault
        · exact .inl h.1
        · exact .inr hfault
  | newCounter next ih => exact fun s => ih _ (h _) { s with counters := s.counters ++ [0] }
  | count counter next ih =>
      intro s
      rw [exec_run_count]
      exact ih _ (h _) { s with
        counters := s.counters.set counter (s.counters.getD counter 0 + 1) }

/-- Running guarded code ends in a result or in a guarded fault. -/
theorem ends_run_guarded {α : Type} {post : α → Prop} (hescaping : Escaping loose escapes)
    (hreenter : Gentle files escapes reenter) {script : Script α}
    (h : script.Keeps post (Fault.Guarded loose)) :
    Ends files (run reenter script) fun result _ => Outcome post (Fault.Guarded loose) result := by
  refine (ends_run hescaping hreenter h).mono fun result added h => ?_
  cases result with
  | ok a => exact h
  | error fault => exact h.elim id hescaping.guarded

theorem ends_ofExcept {α : Type} {result : Except Fault α}
    {post : Except Fault α → List Entry → Prop} (h : post result []) :
    Ends files (ofExcept result) post := by
  cases result with
  | ok a => exact ends_pure h
  | error fault => exact ends_throw h

end Engine

/-- A component that was found fails to render only by way of its producer, or when a value cannot
be written out. -/
theorem Source.ends_render {files : SiteTree} {reenter : Engine.Reentry} {loose : Fault → Prop}
    {escapes : List Engine.Entry → Fault → Prop} (hescaping : Engine.Escaping loose escapes)
    (hreenter : Engine.Gentle files escapes reenter) {source : Source} (h : source.Mild loose)
    (props : Props) :
    Engine.Ends files (source.render reenter props) fun result _ =>
      Engine.Outcome (fun _ => True) (fun fault => fault.isMissing ∨ loose fault) result := by
  have hwrite {value : Value} (hwrites : value.Writes loose) :
      Engine.Ends files (Engine.ofExcept value.write) fun result _ =>
        Engine.Outcome (fun _ => True) (fun fault => fault.isMissing ∨ loose fault) result := by
    apply Engine.ends_ofExcept
    cases hresult : value.write with
    | ok text => trivial
    | error fault => exact .inr (hwrites fault hresult)
  unfold render
  split
  · refine Engine.ends_pure ?_
    trivial
  · rename_i call hmarkup hproducer
    have hcall : (call (props.without lookupNames)).Keeps (Value.Writes loose)
        (Fault.Guarded loose) := by
      have hmild : source.producer.Mild loose := h
      rw [hproducer] at hmild
      exact hmild _
    refine Engine.Ends.after_note fun _ => ?_
    refine (Engine.ends_run_guarded hescaping hreenter hcall).after_attempt
      (fun _ _ hfault => hfault.not_stops) ?_
    intro outcome _ houtcome
    cases outcome with
    | ok value =>
        simp only
        split
        · exact Engine.ends_pure trivial
        · exact hwrite houtcome
    | error cause =>
        exact Engine.ends_throw (Fault.isMissing_or_loose_inProducer houtcome _ _)
  · exact hwrite (Value.Mild.writes h)

end StaticSite
