import StaticSite.Proofs.Compile.Ensures
import StaticSite.Proofs.Component.Probe
import StaticSite.Site.Build

/-!
# Runs of builder actions

What an action that ends well did, step by step, and what every action does to the world however it
ends.
-/

namespace StaticSite.Builder

variable {α β : Type}

/-- The result or fault of an action, with the world after it. -/
def exec (act : Builder α) (w : World) : Except Fault α × World := act w

/-- From the world `w` the action ends well, with the result `a` and in the world `w'`. -/
def Runs (act : Builder α) (w : World) (a : α) (w' : World) : Prop := act.exec w = (.ok a, w')

/-- However the action ends, the world after it stands to the world before it as `R` says. -/
def Keeps (R : World → World → Prop) (act : Builder α) : Prop := ∀ w, R w (act.exec w).2

variable {w w' : World} {a b : α}

@[simp] theorem exec_pure (a : α) : (pure a : Builder α).exec w = (.ok a, w) := rfl

@[simp] theorem exec_throw (fault : Fault) :
    (throw fault : Builder α).exec w = (.error fault, w) := rfl

theorem exec_bind (act : Builder α) (next : α → Builder β) (w : World) :
    (act >>= next).exec w =
      match act.exec w with
      | (.ok a, after) => (next a).exec after
      | (.error fault, after) => (.error fault, after) := by
  simp only [exec, bind, ExceptT.bind, ExceptT.mk, StateT.bind]
  match act w with
  | (.ok _, _) => rfl
  | (.error _, _) => rfl

theorem exec_tryCatch (act : Builder α) (handler : Fault → Builder α) (w : World) :
    (tryCatch act handler).exec w =
      match act.exec w with
      | (.ok a, after) => (.ok a, after)
      | (.error fault, after) => (handler fault).exec after := by
  simp only [exec, tryCatch, tryCatchThe, MonadExceptOf.tryCatch, ExceptT.tryCatch, ExceptT.mk,
    bind, StateT.bind]
  match act w with
  | (.ok _, _) => rfl
  | (.error _, _) => rfl

theorem exec_observe (act : Engine α) (w : World) :
    (observe act).exec w =
      ((act.exec w.tree w.session).1, { w with session := (act.exec w.tree w.session).2 }) := rfl

theorem exec_change (p : Path) (operation : SiteTree → Except FileCause SiteTree) (w : World) :
    (change p operation).exec w =
      if p.text.contains '\x00' then (.error .nullInPath, w)
      else match operation w.tree with
        | .ok tree => (.ok (), { w with tree })
        | .error cause => (.error (.file cause p), w) := by
  unfold change
  split
  · rfl
  · rw [exec_bind]
    change (match operation w.tree with
      | .ok tree => modify fun w => { w with tree }
      | .error cause => throw (.file cause p) : Builder Unit).exec w = _
    cases operation w.tree <;> rfl

/-! ## Actions that end well -/

theorem runs_pure_iff : (pure a : Builder α).Runs w b w' ↔ a = b ∧ w = w' := by
  rw [Runs, exec_pure, Prod.mk.injEq, Except.ok.injEq]

theorem not_runs_throw {fault : Fault} : ¬(throw fault : Builder α).Runs w a w' := by
  intro h
  cases h

theorem runs_bind_iff {act : Builder α} {next : α → Builder β} {b : β} :
    (act >>= next).Runs w b w' ↔ ∃ a mid, act.Runs w a mid ∧ (next a).Runs mid b w' := by
  simp only [Runs, exec_bind]
  cases act.exec w with
  | mk result after =>
      cases result with
      | ok a =>
          constructor
          · exact fun h => ⟨a, after, rfl, h⟩
          · rintro ⟨a', mid, h, hnext⟩
            cases h
            exact hnext
      | error fault =>
          constructor
          · intro h
            cases h
          · rintro ⟨a', mid, h, -⟩
            cases h

theorem Runs.tree_observe {act : Engine α} (h : (observe act).Runs w a w') : w'.tree = w.tree := by
  rw [Runs, exec_observe] at h
  obtain ⟨-, rfl⟩ := Prod.mk.inj h
  rfl

theorem Runs.exec_observed {act : Engine α} (h : (observe act).Runs w a w') :
    (act.exec w.tree w.session).1 = .ok a := by
  rw [Runs, exec_observe] at h
  exact (Prod.mk.inj h).1

theorem Runs.changed {p : Path} {operation : SiteTree → Except FileCause SiteTree} {u : Unit}
    (h : (change p operation).Runs w u w') :
    '\x00' ∉ p.text ∧ operation w.tree = .ok w'.tree := by
  rw [Runs, exec_change] at h
  split at h
  · cases h
  · rename_i hnull
    cases hoperation : operation w.tree with
    | ok tree =>
        rw [hoperation] at h
        cases h
        exact ⟨by simpa using hnull, rfl⟩
    | error cause =>
        rw [hoperation] at h
        cases h

theorem exists_runs {f : α → β} {act : Builder α} {b : β}
    (h : (act.exec w).1.toOption.map f = some b) :
    ∃ a, act.Runs w a (act.exec w).2 ∧ f a = b := by
  obtain ⟨a, ha, hb⟩ := Option.map_eq_some_iff.mp h
  refine ⟨a, ?_, hb⟩
  rw [Runs, ← eq_ok_of_toOption ha]

/-! ## What every action keeps -/

section Keeps

variable {R : World → World → Prop} {act : Builder α}

/-- The world with records added to the log. -/
def logged (w : World) (records : List LogRecord) : World :=
  { w with session := { w.session with log := w.session.log ++ records } }

/-- Steps may be left out and put together, and records make no difference. -/
structure Stepwise (R : World → World → Prop) : Prop where
  refl : ∀ w, R w w
  trans : ∀ {w₁ w₂ w₃}, R w₁ w₂ → R w₂ w₃ → R w₁ w₃
  logged : ∀ w records, R w (logged w records)

theorem Keeps.runs (h : Keeps R act) (hruns : act.Runs w a w') : R w w' := by
  have hkept := h w
  rwa [hruns] at hkept

theorem keeps_pure (hR : Stepwise R) (a : α) : Keeps R (pure a) := fun w => hR.refl w

theorem keeps_throw (hR : Stepwise R) (fault : Fault) : Keeps R (throw fault : Builder α) :=
  fun w => hR.refl w

/-- What only looks at files and writes to the log. -/
theorem keeps_observe (hR : Stepwise R) {act : Engine α}
    (h : ∀ files, ∃ result records, Engine.Reports files act result records) :
    Keeps R (observe act) := by
  intro w
  obtain ⟨result, records, hreports⟩ := h w.tree
  rw [exec_observe, hreports w.session]
  exact hR.logged w records

theorem keeps_looks (hR : Stepwise R) {act : Engine α} {result : SiteTree → Except Fault α}
    (h : ∀ files, Engine.Looks files act (result files)) : Keeps R (observe act) :=
  keeps_observe hR fun files => ⟨_, _, (h files).reports⟩

theorem keeps_info (hR : Stepwise R) (message : Text) : Keeps R (info message) :=
  keeps_observe hR fun _ => ⟨_, _, (Engine.logs_record _ _ _).reports⟩

theorem Keeps.bind {next : α → Builder β} (hR : Stepwise R) (h : Keeps R act)
    (hnext : ∀ a, Keeps R (next a)) : Keeps R (act >>= next) := by
  intro w
  have hact := h w
  rw [exec_bind]
  cases hexec : act.exec w with
  | mk result after =>
      rw [hexec] at hact
      cases result with
      | ok a => exact hR.trans hact (hnext a after)
      | error fault => exact hact

theorem Keeps.tryCatch {handler : Fault → Builder α} (hR : Stepwise R) (h : Keeps R act)
    (hhandler : ∀ fault, Keeps R (handler fault)) : Keeps R (tryCatch act handler) := by
  intro w
  have hact := h w
  rw [exec_tryCatch]
  cases hexec : act.exec w with
  | mk result after =>
      rw [hexec] at hact
      cases result with
      | ok a => exact hact
      | error fault => exact hR.trans hact (hhandler fault after)

theorem keeps_change (hR : Stepwise R) {p : Path}
    {operation : SiteTree → Except FileCause SiteTree}
    (h : '\x00' ∉ p.text → ∀ w u, operation w.tree = .ok u → R w { w with tree := u }) :
    Keeps R (change p operation) := by
  intro w
  rw [exec_change]
  split
  · exact hR.refl w
  · rename_i hnull
    cases hoperation : operation w.tree with
    | ok tree => exact h (by simpa using hnull) w tree hoperation
    | error cause => exact hR.refl w

theorem keeps_unlessFolder (hR : Stepwise R) (p : Path) (fault : Fault) :
    Keeps R (unlessFolder p fault) := by
  refine (keeps_looks hR fun _ => Engine.looks_isFolder).bind hR fun there => ?_
  split
  · exact keeps_pure hR ()
  · exact keeps_throw hR fault

/-- What is done when a folder cannot be made: `missing` where a folder above it is missing. -/
def orElse (p : Path) (missing : Fault → Builder Unit) : Fault → Builder Unit
  | .file .missing q => missing (.file .missing q)
  | fault => unlessFolder p fault

theorem makeFoldersAbove_zero (p : Path) :
    makeFoldersAbove 0 p = tryCatch (makeFolder p) (orElse p throw) := by
  delta makeFoldersAbove
  refine congrArg (tryCatch (makeFolder p)) (funext fun fault => ?_)
  cases fault with
  | file cause q => cases cause <;> rfl
  | _ => rfl

theorem makeFoldersAbove_succ (above : Nat) (p : Path) :
    makeFoldersAbove (above + 1) p = tryCatch (makeFolder p) (orElse p fun _ => do
      makeFoldersAbove above p.parent
      tryCatch (makeFolder p) (orElse p throw)) := by
  have hlast : (fun fault : Fault => (match fault with
      | .file .missing _ => throw fault
      | _ => unlessFolder p fault : Builder Unit)) = orElse p throw := by
    funext fault
    cases fault with
    | file cause q => cases cause <;> rfl
    | _ => rfl
  rw [← hlast]
  delta makeFoldersAbove
  refine congrArg (tryCatch (makeFolder p)) (funext fun fault => ?_)
  cases fault with
  | file cause q => cases cause <;> rfl
  | _ => rfl

theorem keeps_orElse (hR : Stepwise R) {missing : Fault → Builder Unit}
    (h : ∀ fault, Keeps R (missing fault)) (p : Path) (fault : Fault) :
    Keeps R (orElse p missing fault) := by
  unfold orElse
  split
  · exact h _
  · exact keeps_unlessFolder hR p fault

/-- Folders are made one by one, each at a beginning of the path. -/
theorem keeps_makeFoldersAbove (hR : Stepwise R) {p : Path}
    (h : ∀ parts, parts <+: p.parts → Keeps R (makeFolder ⟨p.anchor, parts⟩)) (above : Nat) :
    Keeps R (makeFoldersAbove above p) := by
  have hself := h p.parts (List.prefix_refl _)
  induction above generalizing p with
  | zero =>
      rw [makeFoldersAbove_zero]
      exact hself.tryCatch hR (keeps_orElse hR (keeps_throw hR) p)
  | succ above ih =>
      have hparent (parts : List Text) (hparts : parts <+: p.parent.parts) :
          Keeps R (makeFolder ⟨p.anchor, parts⟩) := h parts (hparts.trans (List.dropLast_prefix _))
      have habove := @ih p.parent hparent (hparent _ (List.prefix_refl _))
      rw [makeFoldersAbove_succ]
      refine hself.tryCatch hR (keeps_orElse hR (fun _ => ?_) p)
      refine habove.bind hR fun _ => ?_
      exact hself.tryCatch hR (keeps_orElse hR (keeps_throw hR) p)

end Keeps

end StaticSite.Builder
