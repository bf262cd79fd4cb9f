import StaticSite.Proofs.Compile.Ends

/-!
# Actions that end well

`act.Ensures files post` says that an action ends without a fault from every session, with a
result of which `post` holds. Nothing is said of the session after it. `Logs files act a records`
also says what that session is: the one before, with some records added to its log.
-/

namespace StaticSite.Engine

variable {α β : Type} {files : SiteTree}

def Ensures (files : SiteTree) (act : Engine α) (post : α → Prop) : Prop :=
  ∀ s, ∃ a, (act.exec files s).1 = .ok a ∧ post a

variable {act : Engine α} {post : α → Prop}

theorem ensures_pure {a : α} (h : post a) : Ensures files (pure a) post :=
  fun s => ⟨a, by rw [exec_pure], h⟩

theorem ensures_record (level : Level) (logger : Logger) (message : Text) :
    Ensures files (record level logger message) fun _ => True :=
  fun s => ⟨(), by rw [exec_record], trivial⟩

namespace Ensures

theorem mono {more : α → Prop} (h : Ensures files act post) (hmore : ∀ a, post a → more a) :
    Ensures files act more := by
  intro s
  obtain ⟨a, ha, hpost⟩ := h s
  exact ⟨a, ha, hmore a hpost⟩

theorem bind {next : α → Engine β} {last : β → Prop} (h : Ensures files act post)
    (hnext : ∀ a, post a → Ensures files (next a) last) : Ensures files (act >>= next) last := by
  intro s
  obtain ⟨a, ha, hpost⟩ := h s
  obtain ⟨b, hb, hlast⟩ := hnext a hpost (act.exec files s).2
  exact ⟨b, by rw [exec_bind_of_ok ha, hb], hlast⟩

theorem within (h : Ensures files act post) (c : Context) :
    Ensures files (Engine.within c act) post :=
  fun s => h { s with context := some c }

end Ensures

theorem ensures_map {f : α → β} {last : β → Prop} (h : Ensures files act fun a => last (f a)) :
    Ensures files (f <$> act) last := by
  rw [← bind_pure_comp]
  exact h.bind fun a ha => ensures_pure ha

theorem ensures_attempt {post : Except Fault α → Prop}
    (h : ∀ s, post (act.exec files s).1 ∧ ∀ fault, (act.exec files s).1 = .error fault →
      fault.stops = false) : Ensures files (attempt act) post := by
  intro s
  obtain ⟨hpost, hstops⟩ := h s
  refine ⟨(act.exec files s).1, ?_, hpost⟩
  cases hresult : (act.exec files s).1 with
  | ok a => rw [exec_attempt_of_ok hresult]
  | error fault => rw [exec_attempt_of_error hresult (hstops fault hresult)]

/-! ## Actions that only write to the log -/

/-- The action ends with `a` from every session, and adds the records to the log. -/
def Logs (files : SiteTree) (act : Engine α) (a : α) (records : List LogRecord) : Prop :=
  ∀ s, act.exec files s = (.ok a, { s with log := s.log ++ records })

theorem logs_pure (a : α) : Logs files (pure a) a [] :=
  fun s => by rw [exec_pure, List.append_nil]

theorem logs_record (level : Level) (logger : Logger) (message : Text) :
    Logs files (record level logger message) () [⟨level, logger, message⟩] :=
  fun s => by rw [exec_record]

/-- An attempt to look at files adds no record, whether it ends well or not. -/
theorem Looks.logs_attempt {result : Except Fault α} (h : Looks files act result)
    (hstops : ∀ fault, result = .error fault → fault.stops = false) :
    Logs files (attempt act) result [] := by
  intro s
  rw [exec_attempt, h s, List.append_nil]
  cases result with
  | ok a => rfl
  | error fault => simp [hstops fault rfl]

namespace Logs

variable {a : α} {records : List LogRecord}

theorem bind {next : α → Engine β} {b : β} {more : List LogRecord} (h : Logs files act a records)
    (hnext : Logs files (next a) b more) : Logs files (act >>= next) b (records ++ more) := by
  intro s
  rw [exec_bind, h s]
  simp only
  rw [hnext, List.append_assoc]

theorem map (h : Logs files act a records) (f : α → β) :
    Logs files (act >>= fun a => pure (f a)) (f a) records :=
  fun s => by rw [exec_bind, h s]; rfl

theorem ensures (h : Logs files act a records) : Ensures files act (· = a) :=
  fun s => ⟨a, by rw [h s], rfl⟩

end Logs

/-- The action has the outcome `result` from every session, and adds the records to the log. -/
def Reports (files : SiteTree) (act : Engine α) (result : Except Fault α)
    (records : List LogRecord) : Prop :=
  ∀ s, act.exec files s = (result, { s with log := s.log ++ records })

theorem Looks.reports {result : Except Fault α} (h : Looks files act result) :
    Reports files act result [] :=
  fun s => by rw [h s, List.append_nil]

theorem Logs.reports {a : α} {records : List LogRecord} (h : Logs files act a records) :
    Reports files act (.ok a) records :=
  h

namespace Reports

variable {a : α} {records more : List LogRecord} {fault : Fault}

theorem bind {next : α → Engine β} {result : Except Fault β} (h : Reports files act (.ok a) records)
    (hnext : Reports files (next a) result more) :
    Reports files (act >>= next) result (records ++ more) := by
  intro s
  rw [exec_bind, h s]
  simp only
  rw [hnext, List.append_assoc]

theorem bind_error (h : Reports files act (.error fault) records) (next : α → Engine β) :
    Reports files (act >>= next) (.error fault) records := by
  intro s
  rw [exec_bind, h s]

theorem map {result : Except Fault α} (h : Reports files act result records) (f : α → β) :
    Reports files (act >>= fun a => pure (f a)) (result.map f) records := by
  intro s
  rw [exec_bind, h s]
  cases result <;> rfl

theorem of_exec {result other : Except Fault α} {s : Session} (h : Reports files act result records)
    (hother : (act.exec files s).1 = other) : Reports files act other records := by
  rw [h s] at hother
  exact hother ▸ h

end Reports

end StaticSite.Engine
