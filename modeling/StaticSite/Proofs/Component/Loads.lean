import StaticSite.Proofs.Component.Probe
import StaticSite.Proofs.Files.Suffixes

/-!
# What loading a file comes to

Loading a file only looks at files, so it comes to the same whenever it is done: there is no loader
for the file, it cannot be linked, it has no module, or it has one. -/

namespace StaticSite

/-- Bytecode files that are left, in order. -/
abbrev KeptFiles := List (Path × List UInt8)

namespace Engine

variable {files : SiteTree} {p : Path}

theorem seen_not_stops {fault : Fault} (h : seen files p = .error fault) : fault.stops = false := by
  obtain ⟨cause, -, rfl⟩ := seen_error_iff.mp h
  rfl

/-- Opening a file for its content fails as a matter of files, or because no path can be so written.
-/
theorem contained_eq_error {fault : Fault} (h : contained files p = .error fault) :
    (∃ cause, fault = .file cause p) ∨ '\x00' ∈ p.text ∧ fault = .nullInPath := by
  rcases bind_eq_error_iff.mp h with h | ⟨n, -, h⟩
  · exact (opened_eq_error h).imp_left fun ⟨_, cause, _, hfault⟩ => ⟨cause, hfault⟩
  · cases n with
    | folder entries =>
        cases h
        exact .inl ⟨_, rfl⟩
    | file content => cases h

theorem contained_not_stops {fault : Fault} (h : contained files p = .error fault) :
    fault.stops = false := by
  rcases contained_eq_error h with ⟨cause, rfl⟩ | ⟨-, rfl⟩ <;> rfl

theorem Looks.attempt {α : Type} {act : Engine α} {result : Except Fault α}
    (h : Looks files act result) (hstops : ∀ fault, result = .error fault → fault.stops = false) :
    Looks files (Engine.attempt act) (.ok result) := by
  intro s
  cases result with
  | ok a => rw [exec_attempt, h s]
  | error fault =>
      rw [exec_attempt, h s]
      simp [hstops fault rfl]

end Engine

/-- No two loaders have a file in common. -/
theorem Loader.ofPath?_eq_some_iff {loader : Loader} {p : Path} :
    ofPath? p = some loader ↔ Text.endsWith loader.suffix p.text := by
  have hone : ∀ a b : Loader, Text.endsWith a.suffix b.suffix → a = b := by
    rintro (_ | _ | _) (_ | _ | _) <;> decide
  have hsound {other : Loader} (h : ofPath? p = some other) :
      Text.endsWith other.suffix p.text := by
    unfold ofPath? at h
    simpa using List.find?_some h
  refine ⟨hsound, fun h => ?_⟩
  cases hfound : ofPath? p with
  | none =>
      have hnone := List.find?_eq_none.mp hfound loader (by cases loader <;> simp)
      exact absurd h hnone
  | some other =>
      rcases Text.endsWith_or_endsWith h (hsound hfound) with h | h
      · rw [hone _ _ h]
      · rw [hone _ _ h]

namespace Loading

open Engine

variable (files : SiteTree) (r : Runtime)

/-- What the bytecode of a source counts for, if it counts. -/
def reused (source : Path) : Option (Except Complaint Module) :=
  match r.cache source, seen files source with
  | some cache, .ok (some (.file content)) =>
      match contained files cache with
      | .ok bytecode => r.reuse source content bytecode.toBytes
      | .error _ => none
  | _, _ => none

/-- What loading comes to when a source is compiled. -/
def compiled (source : Path) : Loading :=
  match contained files source with
  | .error fault => broken fault
  | .ok content =>
      match r.moduleOf content with
      | .error complaint => broken complaint.fault
      | .ok module =>
          ready module ((r.cache source).bind fun cache =>
            (r.keep source content).map (cache, ·)).toList

/-- What loading a file comes to. -/
def loaded (path : Path) : Loading :=
  match Loader.ofPath? path with
  | some .source =>
      match reused files r (files.absolute path) with
      | some result => ofResult result
      | none => compiled files r (files.absolute path)
  | some .bytecode =>
      match contained files (files.absolute path) with
      | .error fault => broken fault
      | .ok content => ofResult (r.decode content.toBytes)
  | some .native =>
      match r.link ((contained files (files.absolute path)).map Content.toBytes) with
      | .ok module => ready module []
      | .error complaint => unlinked complaint.fault
  | none => unknown

variable {files r}

theorem looks_attempt_readContent (p : Path) :
    Looks files (attempt (Access.direct.readContent p)) (.ok (contained files p)) :=
  looks_readContent.attempt fun _ h => contained_not_stops h

theorem looks_reuse (source : Path) :
    Looks files (reuse .direct r source) (.ok (reused files r source)) := by
  have hseen : Looks files (attempt (Access.direct.find? source)) (.ok (seen files source)) :=
    looks_find?.attempt fun _ h => seen_not_stops h
  intro s
  unfold reuse reused
  rw [exec_bind, hseen s]
  cases r.cache source with
  | none => rfl
  | some cache =>
      cases seen files source with
      | error fault => rfl
      | ok there =>
          match there with
          | none => rfl
          | some (.folder entries) => rfl
          | some (.file content) =>
              simp only
              rw [exec_bind, looks_attempt_readContent cache s]
              cases contained files cache <;> rfl

theorem looks_ofSource (source : Path) : Looks files (ofSource .direct r source)
    (.ok (match reused files r source with
      | some result => ofResult result
      | none => compiled files r source)) := by
  intro s
  unfold ofSource compiled
  rw [exec_bind, looks_reuse source s]
  cases reused files r source with
  | some result => rfl
  | none =>
      simp only
      rw [exec_bind, looks_attempt_readContent source s]
      cases contained files source with
      | error fault => rfl
      | ok content =>
          simp only
          cases r.moduleOf content <;> rfl

theorem looks_ofFile (path : Path) :
    Looks files (ofFile .direct r path) (.ok (loaded files r path)) := by
  intro s
  unfold ofFile loaded
  rw [exec_bind, exec_read]
  simp only
  cases Loader.ofPath? path with
  | none => rfl
  | some loader =>
      cases loader with
      | source => exact looks_ofSource _ s
      | bytecode =>
          simp only
          rw [ofBytecode, exec_bind, looks_attempt_readContent _ s]
          cases contained files (files.absolute path) <;> rfl
      | native =>
          simp only
          rw [ofNative, exec_bind, looks_attempt_readContent _ s]
          simp only
          cases r.link ((contained files (files.absolute path)).map Content.toBytes) <;> rfl

/-- Only a native module is not linked. -/
theorem exists_of_loaded_unlinked {path : Path} {fault : Fault}
    (h : loaded files r path = .unlinked fault) :
    ∃ complaint, Loader.ofPath? path = some .native ∧
      r.link ((contained files (files.absolute path)).map Content.toBytes) = .error complaint ∧
      fault = complaint.fault := by
  have hresult {result : Except Complaint Module} (h : ofResult result = .unlinked fault) :
      False := by
    cases result <;> cases h
  unfold loaded at h
  split at h
  · split at h
    · exact (hresult h).elim
    · unfold compiled at h
      split at h
      · cases h
      · split at h <;> cases h
  · split at h
    · cases h
    · exact (hresult h).elim
  · rename_i hnative
    split at h
    · cases h
    · rename_i complaint hlink
      cases h
      exact ⟨complaint, hnative, hlink, rfl⟩
  · cases h

/-- What is loaded as a source is known, and needs no linking. -/
theorem loaded_of_source {path : Path} (h : Loader.ofPath? path = some .source) :
    loaded files r path ≠ .unknown ∧ ∀ fault, loaded files r path ≠ .unlinked fault := by
  refine ⟨fun hunknown => ?_, fun fault hfault => ?_⟩
  · simp only [loaded, h] at hunknown
    split at hunknown
    · rename_i result _
      cases result <;> cases hunknown
    · unfold compiled at hunknown
      split at hunknown
      · cases hunknown
      · split at hunknown <;> cases hunknown
  · obtain ⟨complaint, hnative, -⟩ := exists_of_loaded_unlinked hfault
    cases h.symm.trans hnative

theorem isWorded_of_contained_error {p : Path} {fault : Fault}
    (h : contained files p = .error fault) : fault.isWorded := by
  rcases contained_eq_error h with ⟨cause, rfl⟩ | ⟨-, rfl⟩ <;> rfl

theorem isWorded_of_loaded_broken {path : Path} {fault : Fault}
    (h : loaded files r path = .broken fault) : fault.isWorded := by
  have hresult {result : Except Complaint Module} (h : ofResult result = .broken fault) :
      fault.isWorded := by
    cases result <;> cases h
    rfl
  unfold loaded at h
  split at h
  · split at h
    · exact hresult h
    · unfold compiled at h
      split at h
      · rename_i hcontained
        cases h
        exact isWorded_of_contained_error hcontained
      · split at h
        · cases h
          rfl
        · cases h
  · split at h
    · rename_i hcontained
      cases h
      exact isWorded_of_contained_error hcontained
    · exact hresult h
  · split at h <;> cases h
  · cases h

/-- Bytecode is left of compiled sources only, and where the runtime looks for it. -/
theorem cache_of_loaded_ready {path : Path} {module : Module} {kept : KeptFiles}
    (h : loaded files r path = .ready module kept) {k : Path × List UInt8} (hk : k ∈ kept) :
    Loader.ofPath? path = some .source ∧ r.cache (files.absolute path) = some k.1 := by
  have hresult {result : Except Complaint Module} (h : ofResult result = .ready module kept) :
      False := by
    cases result <;> cases h
    cases hk
  unfold loaded at h
  split at h
  · rename_i hsource
    refine ⟨hsource, ?_⟩
    split at h
    · exact (hresult h).elim
    · unfold compiled at h
      split at h
      · cases h
      · split at h
        · cases h
        · cases h
          obtain ⟨cache, hcache, hkeep⟩ := Option.bind_eq_some_iff.mp (Option.mem_toList.mp hk)
          obtain ⟨data, -, rfl⟩ := Option.map_eq_some_iff.mp hkeep
          exact hcache
  · split at h
    · cases h
    · exact (hresult h).elim
  · split at h
    · cases h
      cases hk
    · cases h
  · cases h

/-- Without a runtime that knows a language, only a file that is known to make a module has one. -/
theorem exists_code_of_loaded_plain {path : Path} {module : Module}
    {kept : List (Path × List UInt8)} (h : loaded files .plain path = .ready module kept) :
    ∃ p, files.find p = .ok (.file (.code module)) := by
  unfold loaded at h
  split at h
  · have hreused : reused files .plain (files.absolute path) = none := rfl
    rw [hreused] at h
    unfold compiled at h
    cases hcontained : contained files (files.absolute path) with
    | error fault => simp [hcontained] at h
    | ok content =>
        cases content with
        | bytes data => simp [hcontained, Runtime.moduleOf, Runtime.plain] at h
        | code other =>
            simp [hcontained, Runtime.moduleOf] at h
            rw [← h.1]
            exact ⟨_, Tree.find_of_read (contained_eq_ok_iff.mp hcontained).2⟩
  · cases hcontained : contained files (files.absolute path) with
    | error fault => simp [hcontained] at h
    | ok content => simp [hcontained, Runtime.plain, ofResult] at h
  · simp [Runtime.plain] at h
  · cases h

end Loading

end StaticSite
