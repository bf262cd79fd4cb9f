import StaticSite.Engine

/-!
# How actions end

`Ends files act post` relates the result or fault of an action to what it has added to the trace,
from every session. An action that only looks at files has one outcome and leaves the session as
it is.
-/

namespace StaticSite

theorem eq_ok_of_toOption {ε α : Type} {result : Except ε α} {a : α}
    (h : result.toOption = some a) : result = .ok a := by
  cases result with
  | ok b =>
      cases h
      rfl
  | error fault => cases h

section Results

variable {ε α β : Type} {result : Except ε α} {next : α → Except ε β}

theorem bind_eq_ok_iff {b : β} :
    result >>= next = .ok b ↔ ∃ a, result = .ok a ∧ next a = .ok b := by
  cases result <;> simp [bind, Except.bind]

theorem bind_eq_error_iff {fault : ε} : result >>= next = .error fault ↔
    result = .error fault ∨ ∃ a, result = .ok a ∧ next a = .error fault := by
  cases result <;> simp [bind, Except.bind]

theorem mapError_eq_ok_iff {ε' : Type} {f : ε → ε'} {a : α} :
    result.mapError f = .ok a ↔ result = .ok a := by
  cases result with
  | ok other => exact ⟨fun h => by cases h; rfl, fun h => by cases h; rfl⟩
  | error fault => exact iff_of_false nofun nofun

theorem map_eq_ok_iff {f : α → β} {b : β} :
    result.map f = .ok b ↔ ∃ a, result = .ok a ∧ f a = b := by
  cases result <;> simp [Except.map]

theorem mem_mapM_iff {as : List α} {bs : List β} (h : as.mapM next = .ok bs) {b : β} :
    b ∈ bs ↔ ∃ a ∈ as, next a = .ok b := by
  induction as generalizing bs with
  | nil =>
      cases h
      simp
  | cons a as ih =>
      rw [List.mapM_cons] at h
      obtain ⟨first, hfirst, h⟩ := bind_eq_ok_iff.mp h
      obtain ⟨rest, hrest, h⟩ := bind_eq_ok_iff.mp h
      cases h
      simp [ih hrest, hfirst, eq_comm]

theorem exists_mapM_ok_iff {as : List α} :
    (∃ bs, as.mapM next = .ok bs) ↔ ∀ a ∈ as, ∃ b, next a = .ok b := by
  induction as with
  | nil => exact ⟨fun _ a ha => (List.not_mem_nil ha).elim, fun _ => ⟨[], rfl⟩⟩
  | cons a as ih =>
      rw [List.forall_mem_cons, ← ih, List.mapM_cons]
      constructor
      · rintro ⟨bs, h⟩
        obtain ⟨b, hb, h⟩ := bind_eq_ok_iff.mp h
        obtain ⟨rest, hrest, -⟩ := bind_eq_ok_iff.mp h
        exact ⟨⟨b, hb⟩, rest, hrest⟩
      · rintro ⟨⟨b, hb⟩, rest, hrest⟩
        exact ⟨b :: rest, by rw [hb, hrest]; rfl⟩

theorem exists_of_mapM_error {as : List α} {fault : ε} (h : as.mapM next = .error fault) :
    ∃ a ∈ as, next a = .error fault := by
  induction as with
  | nil => cases h
  | cons a as ih =>
      rw [List.mapM_cons] at h
      rcases bind_eq_error_iff.mp h with h | ⟨b, -, h⟩
      · exact ⟨a, List.mem_cons_self, h⟩
      · rcases bind_eq_error_iff.mp h with h | ⟨bs, -, h⟩
        · obtain ⟨other, hother, h⟩ := ih h
          exact ⟨other, List.mem_cons_of_mem a hother, h⟩
        · cases h

end Results

namespace Engine

/-- An event with the context that was current. -/
abbrev Entry := Option Context × Event

variable {α β : Type} {files : SiteTree} {act : Engine α}

/-- The action ends, and adds entries to the trace, in a way of which `post` holds. -/
def Ends (files : SiteTree) (act : Engine α) (post : Except Fault α → List Entry → Prop) : Prop :=
  ∀ s, ∃ added, (act.exec files s).2.trace = s.trace ++ added ∧ post (act.exec files s).1 added

/-- `post` holds of a result, `blame` of a fault. -/
def Outcome (post : α → Prop) (blame : Fault → Prop) : Except Fault α → Prop
  | .ok a => post a
  | .error fault => blame fault

/-- What an attempt makes of an outcome: a request to stop passes, all else becomes a value. -/
def held : Except Fault α → Except Fault (Except Fault α)
  | .ok a => .ok (.ok a)
  | .error fault => if fault.stops then .error fault else .ok (.error fault)

section Rules

variable {post : Except Fault α → List Entry → Prop}

theorem ends_pure {a : α} (h : post (.ok a) []) : Ends files (pure a) post :=
  fun s => ⟨[], by rw [exec_pure, List.append_nil], h⟩

theorem ends_throw {fault : Fault} (h : post (.error fault) []) : Ends files (throw fault) post :=
  fun s => ⟨[], by rw [exec_throw, List.append_nil], h⟩

theorem ends_within (h : Ends files act post) (c : Context) : Ends files (within c act) post :=
  fun s => h { s with context := some c }

namespace Ends

theorem mono {more : Except Fault α → List Entry → Prop} (h : Ends files act post)
    (hmore : ∀ result added, post result added → more result added) : Ends files act more := by
  intro s
  obtain ⟨added, htrace, hpost⟩ := h s
  exact ⟨added, htrace, hmore _ _ hpost⟩

theorem and {more : Except Fault α → List Entry → Prop} (h : Ends files act post)
    (hmore : Ends files act more) :
    Ends files act fun result added => post result added ∧ more result added := by
  intro s
  obtain ⟨added, htrace, hpost⟩ := h s
  obtain ⟨other, hother, hmore⟩ := hmore s
  have heq : other = added := List.append_cancel_left (hother.symm.trans htrace)
  subst heq
  exact ⟨other, htrace, hpost, hmore⟩

theorem from_session (h : Ends files act post) :
    Ends files act fun result added => post result added ∧ ∃ s, (act.exec files s).1 = result := by
  intro s
  obtain ⟨added, htrace, hpost⟩ := h s
  exact ⟨added, htrace, hpost, s, rfl⟩

theorem bind {next : α → Engine β} {last : Except Fault β → List Entry → Prop}
    (h : Ends files act post)
    (hok : ∀ a added, post (.ok a) added →
      Ends files (next a) fun result more => last result (added ++ more))
    (herror : ∀ fault added, post (.error fault) added → last (.error fault) added) :
    Ends files (act >>= next) last := by
  intro s
  obtain ⟨added, htrace, hpost⟩ := h s
  cases hresult : (act.exec files s).1 with
  | error fault =>
      rw [hresult] at hpost
      rw [exec_bind_of_error hresult]
      exact ⟨added, htrace, herror fault added hpost⟩
  | ok a =>
      rw [hresult] at hpost
      rw [exec_bind_of_ok hresult]
      obtain ⟨more, hmore, hlast⟩ := hok a added hpost (act.exec files s).2
      refine ⟨added ++ more, ?_, hlast⟩
      rw [hmore, htrace, List.append_assoc]

theorem after_record {next : Unit → Engine α} (h : Ends files (next ()) post) (level : Level)
    (logger : Logger) (message : Text) :
    Ends files (record level logger message >>= next) post := by
  intro s
  rw [exec_bind, exec_record]
  exact h _

theorem after_keep {next : Unit → Engine α} (h : Ends files (next ()) post)
    (kept : List (Path × List UInt8)) : Ends files (keep kept >>= next) post := by
  intro s
  rw [exec_bind, exec_keep]
  exact h _

theorem after_note {event : Event} {next : Unit → Engine α}
    (h : ∀ context, Ends files (next ()) fun result added =>
      post result ((context, event) :: added)) : Ends files (note event >>= next) post := by
  intro s
  rw [exec_bind, exec_note]
  obtain ⟨added, htrace, hpost⟩ := h s.context { s with trace := s.trace ++ [(s.context, event)] }
  refine ⟨(s.context, event) :: added, ?_, hpost⟩
  rw [htrace, List.append_assoc]
  rfl

theorem attempt (h : Ends files act post) :
    Ends files (Engine.attempt act) fun result added =>
      ∃ outcome, result = held outcome ∧ post outcome added := by
  intro s
  obtain ⟨added, htrace, hpost⟩ := h s
  cases hresult : (act.exec files s).1 with
  | ok a =>
      rw [hresult] at hpost
      rw [exec_attempt_of_ok hresult]
      exact ⟨added, htrace, _, rfl, hpost⟩
  | error fault =>
      rw [hresult] at hpost
      by_cases hstops : fault.stops
      · rw [exec_attempt_of_stop hresult hstops]
        exact ⟨added, htrace, _, by rw [held, if_pos hstops], hpost⟩
      · rw [exec_attempt_of_error hresult (by simpa using hstops)]
        exact ⟨added, htrace, _, by rw [held, if_neg hstops], hpost⟩

/-- An attempt that meets no request to stop goes on with the outcome as a value. -/
theorem after_attempt {next : Except Fault α → Engine β}
    {last : Except Fault β → List Entry → Prop} (h : Ends files act post)
    (hstops : ∀ fault added, post (.error fault) added → fault.stops = false)
    (hnext : ∀ outcome added, post outcome added →
      Ends files (next outcome) fun result more => last result (added ++ more)) :
    Ends files (Engine.attempt act >>= next) last := by
  refine h.attempt.bind ?_ ?_
  · rintro outcome added ⟨other, hother, hpost⟩
    cases other with
    | ok a =>
        cases hother
        exact hnext _ added hpost
    | error fault =>
        rw [held, hstops fault added hpost] at hother
        cases hother
        exact hnext _ added hpost
  · rintro fault added ⟨other, hother, hpost⟩
    cases other with
    | ok a => cases hother
    | error first =>
        rw [held, hstops first added hpost] at hother
        cases hother

end Ends

end Rules

/-- The action has the outcome `result` from every session and leaves the session as it is. -/
def Looks (files : SiteTree) (act : Engine α) (result : Except Fault α) : Prop :=
  ∀ s, act.exec files s = (result, s)

/-- What is seen from one session is seen from all. -/
theorem Looks.of_exec {result other : Except Fault α} {s : Session} (h : Looks files act result)
    (hother : (act.exec files s).1 = other) : Looks files act other := by
  rw [h s] at hother
  exact hother ▸ h

theorem Looks.ends {result : Except Fault α} {post : Except Fault α → List Entry → Prop}
    (h : Looks files act result) (hpost : post result []) : Ends files act post :=
  fun s => ⟨[], by rw [h s, List.append_nil], by rw [h s]; exact hpost⟩

namespace Looks

theorem pure (a : α) : Looks files (Pure.pure a) (.ok a) := fun _ => rfl

theorem throw (fault : Fault) : Looks files (throw fault : Engine α) (.error fault) := fun _ => rfl

theorem bind {act : Engine α} {next : α → Engine β} {result : Except Fault α}
    {last : α → Except Fault β} (h : Looks files act result)
    (hnext : ∀ a, Looks files (next a) (last a)) :
    Looks files (act >>= next) (result >>= last) := by
  intro s
  rw [exec_bind, h s]
  cases result with
  | ok a => exact hnext a s
  | error fault => rfl

theorem mapM {f : β → Engine α} {result : β → Except Fault α}
    (h : ∀ b, Looks files (f b) (result b)) (bs : List β) :
    Looks files (bs.mapM f) (bs.mapM result) := by
  induction bs with
  | nil => exact pure []
  | cons b bs ih =>
      rw [List.mapM_cons, List.mapM_cons]
      exact (h b).bind fun a => ih.bind fun as => pure (a :: as)

end Looks

/-- The action only looks at files, and fails for no other cause than those of `blame`. -/
def Peeks (files : SiteTree) (blame : Fault → Prop) (act : Engine α) : Prop :=
  ∃ result, Looks files act result ∧ Outcome (fun _ => True) blame result

namespace Peeks

variable {blame : Fault → Prop}

theorem pure (a : α) : Peeks files blame (Pure.pure a) := ⟨.ok a, fun _ => rfl, trivial⟩

theorem throw {fault : Fault} (h : blame fault) : Peeks files blame (throw fault : Engine α) :=
  ⟨.error fault, fun _ => rfl, h⟩

theorem bind {next : α → Engine β} (h : Peeks files blame act)
    (hnext : ∀ a, Peeks files blame (next a)) : Peeks files blame (act >>= next) := by
  obtain ⟨result, hlooks, houtcome⟩ := h
  cases result with
  | error fault => exact ⟨.error fault, fun s => by rw [exec_bind, hlooks s], houtcome⟩
  | ok a =>
      obtain ⟨last, hlast, hblame⟩ := hnext a
      refine ⟨last, fun s => ?_, hblame⟩
      rw [exec_bind, hlooks s]
      exact hlast s

theorem mono {more : Fault → Prop} (h : Peeks files blame act)
    (hmore : ∀ fault, blame fault → more fault) : Peeks files more act := by
  obtain ⟨result, hlooks, houtcome⟩ := h
  refine ⟨result, hlooks, ?_⟩
  cases result with
  | ok a => trivial
  | error fault => exact hmore fault houtcome

theorem ends (h : Peeks files blame act) :
    Ends files act fun result added => added = [] ∧ Outcome (fun _ => True) blame result := by
  obtain ⟨result, hlooks, houtcome⟩ := h
  exact hlooks.ends ⟨rfl, houtcome⟩

theorem mapM {f : β → Engine α} {l : List β} (h : ∀ b ∈ l, Peeks files blame (f b)) :
    Peeks files blame (l.mapM f) := by
  induction l with
  | nil => exact pure []
  | cons b l ih =>
      rw [List.mapM_cons]
      refine (h b (by simp)).bind fun a => ?_
      exact (ih fun c hc => h c (by simp [hc])).bind fun as => pure (a :: as)

end Peeks

end Engine

end StaticSite
