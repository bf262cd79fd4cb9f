import StaticSite.Component.Provider
import StaticSite.Proofs.Compile.Ends
import StaticSite.Proofs.Files.Walk

/-!
# Looking at files

Looking whether a path leads anywhere fails in two cases only: when a name in it, or the path as a
whole, is too long, and when the machine refuses to show what lies in a folder on the way.
-/

namespace StaticSite

namespace Engine

variable {files : SiteTree} {p : Path}

/-- The path cannot be looked at: it is too long, or has a name that is, or the machine refuses to
show what is in a folder on the way. A path that holds the character that ends paths leads nowhere
instead. -/
structure Refuses (files : SiteTree) (p : Path) (cause : FileCause) : Prop where
  no_null : '\x00' ∉ p.text
  refused : files.look p = .error cause
  not_missing : cause ≠ .missing
  not_notFolder : cause ≠ .notFolder

/-- What is seen when a path is looked at. -/
def seen (files : SiteTree) (p : Path) : Except Fault (Option (Node Content)) :=
  if p.text.contains '\x00' then .ok none
  else match files.look p with
    | .ok n => .ok (some n)
    | .error .missing => .ok none
    | .error .notFolder => .ok none
    | .error cause => .error (.file cause p)

theorem looks_find? : Looks files (find? p) (seen files p) := by
  intro s
  unfold find? seen
  split
  · rfl
  · simp only [exec_bind, exec_read]
    cases files.look p with
    | ok n => rfl
    | error cause => cases cause <;> rfl

theorem seen_error_iff {fault : Fault} :
    seen files p = .error fault ↔ ∃ cause, Refuses files p cause ∧ fault = .file cause p := by
  unfold seen
  by_cases hnull : '\x00' ∈ p.text
  · rw [if_pos (by simpa using hnull)]
    refine ⟨fun h => (by cases h), ?_⟩
    rintro ⟨cause, ⟨hclear, -⟩, -⟩
    exact absurd hnull hclear
  · rw [if_neg (by simpa using hnull)]
    cases hlook : files.look p with
    | ok n =>
        refine ⟨fun h => (by cases h), ?_⟩
        rintro ⟨cause, ⟨-, hrefused, -⟩, -⟩
        cases hlook.symm.trans hrefused
    | error cause =>
        have hiff (hgrave : cause ≠ .missing ∧ cause ≠ .notFolder) :
            (.error (.file cause p) : Except Fault (Option (Node Content))) = .error fault ↔
              ∃ other, Refuses files p other ∧ fault = .file other p := by
          constructor
          · rintro ⟨⟩
            exact ⟨cause, ⟨hnull, hlook, hgrave.1, hgrave.2⟩, rfl⟩
          · rintro ⟨other, ⟨-, hrefused, -⟩, rfl⟩
            cases hlook.symm.trans hrefused
            rfl
        have hnone (hlight : cause = .missing ∨ cause = .notFolder) :
            (.ok none : Except Fault (Option (Node Content))) = .error fault ↔
              ∃ other, Refuses files p other ∧ fault = .file other p := by
          refine ⟨fun h => (by cases h), ?_⟩
          rintro ⟨other, ⟨-, hrefused, hmissing, hfolder⟩, -⟩
          cases hlook.symm.trans hrefused
          exact (hlight.elim hmissing hfolder).elim
        cases cause with
        | missing => exact hnone (.inl rfl)
        | notFolder => exact hnone (.inr rfl)
        | _ => exact hiff ⟨by decide, by decide⟩

/-- The path can be looked at, whatever it leads to. -/
def Admits (files : SiteTree) (p : Path) : Prop := ∀ cause, ¬Refuses files p cause

theorem admits_of_look {n : Node Content} (h : files.look p = .ok n) : Admits files p := by
  rintro cause ⟨-, hrefused, -⟩
  cases h.symm.trans hrefused

/-- A path that can be looked at is seen to lead where it does. -/
theorem look_eq_find (h : Admits files p) (hnull : '\x00' ∉ p.text) :
    files.look p = files.find p := by
  cases hlong : Tree.tooLong p with
  | true =>
      have hrefused : files.look p = .error .nameTooLong := by rw [Tree.look, if_pos hlong]
      exact absurd ⟨hnull, hrefused, by decide, by decide⟩ (h _)
  | false =>
      cases hbarred : Tree.barred files.guard files.root (files.start p) p.parts with
      | none => exact Tree.look_eq_of_short hlong hbarred
      | some refusal =>
          have hrefused : files.look p = .error refusal.cause := by
            rw [Tree.look, if_neg (by simp [hlong]), hbarred]
          exact absurd ⟨hnull, hrefused, by cases refusal <;> decide, by cases refusal <;> decide⟩
            (h _)

theorem exists_seen (h : Admits files p) : ∃ there, seen files p = .ok there := by
  cases hseen : seen files p with
  | ok there => exact ⟨there, rfl⟩
  | error fault =>
      obtain ⟨cause, hrefused, -⟩ := seen_error_iff.mp hseen
      exact absurd hrefused (h cause)

theorem admits_of_seen {there : Option (Node Content)} (h : seen files p = .ok there) :
    Admits files p := by
  intro cause hrefused
  cases h.symm.trans (seen_error_iff.mpr ⟨cause, hrefused, rfl⟩)

theorem seen_of_look {n : Node Content} (hnull : '\x00' ∉ p.text) (h : files.look p = .ok n) :
    seen files p = .ok (some n) := by
  rw [seen, if_neg (by simpa using hnull), h]

theorem seen_some {n : Node Content} (h : seen files p = .ok (some n)) :
    '\x00' ∉ p.text ∧ files.look p = .ok n := by
  unfold seen at h
  split at h
  · cases h
  · rename_i hnull
    refine ⟨by simpa using hnull, ?_⟩
    split at h
    · rename_i hlook
      cases h
      exact hlook
    · cases h
    · cases h
    · cases h

theorem seen_of_file {content : Content} (h : seen files p = .ok (some (.file content))) :
    '\x00' ∉ p.text ∧ files.find p = .ok (.file content) :=
  ⟨(seen_some h).1, Tree.find_of_look (seen_some h).2⟩

theorem looks_isFile :
    Looks files (isFile p)
      ((seen files p).map fun n => (n.map fun n => !n.isFolder).getD false) := by
  intro s
  rw [isFile, exec_bind, looks_find? s]
  cases seen files p <;> rfl

theorem looks_isFolder :
    Looks files (isFolder p) ((seen files p).map fun n => (n.map Node.isFolder).getD false) := by
  intro s
  rw [isFolder, exec_bind, looks_find? s]
  cases seen files p <;> rfl

theorem looks_isFolder_iff :
    Looks files (isFolder p) (.ok true) ↔
      ∃ entries, seen files p = .ok (some (.folder entries)) := by
  have hlooks : Looks files (isFolder p) _ := looks_isFolder
  constructor
  · intro h
    have hseen := congrArg Prod.fst ((hlooks .start).symm.trans (h .start))
    cases hthere : seen files p with
    | error fault =>
        rw [hthere] at hseen
        cases hseen
    | ok there =>
        rw [hthere] at hseen
        cases there with
        | none => cases hseen
        | some n =>
            cases n with
            | file content => cases hseen
            | folder entries => exact ⟨entries, rfl⟩
  · rintro ⟨entries, hentries⟩
    rw [hentries] at hlooks
    exact hlooks

theorem find_of_isFolder {s : Session} (h : ((isFolder p).exec files s).1 = .ok true) :
    ∃ entries, files.find p = .ok (.folder entries) := by
  obtain ⟨entries, hentries⟩ := looks_isFolder_iff.mp (looks_isFolder.of_exec h)
  exact ⟨entries, Tree.find_of_look (seen_some hentries).2⟩

/-- What comes of opening a path. -/
def opened (files : SiteTree) (p : Path) : Except Fault (Node Content) :=
  if p.text.contains '\x00' then .error .nullInPath
  else (files.read p).mapError (.file · p)

theorem looks_openNode : Looks files (openNode p) (opened files p) := by
  intro s
  unfold openNode opened
  split
  · rfl
  · simp only [exec_bind, exec_read]
    cases files.read p <;> rfl

theorem opened_eq_ok_iff {n : Node Content} :
    opened files p = .ok n ↔ '\x00' ∉ p.text ∧ files.read p = .ok n := by
  unfold opened
  by_cases hnull : '\x00' ∈ p.text
  · rw [if_pos (by simpa using hnull)]
    exact ⟨fun h => (by cases h), fun h => absurd hnull h.1⟩
  · rw [if_neg (by simpa using hnull)]
    exact mapError_eq_ok_iff.trans ⟨fun h => ⟨hnull, h⟩, fun h => h.2⟩

/-- Opening a path fails as a matter of files, or because no path can be so written. -/
theorem opened_eq_error {fault : Fault} (h : opened files p = .error fault) :
    ('\x00' ∉ p.text ∧ ∃ cause, files.read p = .error cause ∧ fault = .file cause p) ∨
      '\x00' ∈ p.text ∧ fault = .nullInPath := by
  unfold opened at h
  split at h
  · rename_i hnull
    cases h
    exact .inr ⟨by simpa using hnull, rfl⟩
  · rename_i hnull
    cases hread : files.read p with
    | ok n =>
        rw [hread] at h
        cases h
    | error cause =>
        rw [hread] at h
        cases h
        exact .inl ⟨by simpa using hnull, cause, rfl, rfl⟩

/-- What comes of opening a file for its content. -/
def contained (files : SiteTree) (p : Path) : Except Fault Content := do
  match ← opened files p with
  | .folder _ => throw (.file .isFolder p)
  | .file content => return content

theorem looks_readContent : Looks files (readContent p) (contained files p) := by
  refine looks_openNode.bind fun n => ?_
  cases n with
  | folder entries => exact .throw _
  | file content => exact .pure content

theorem contained_eq_ok_iff {content : Content} :
    contained files p = .ok content ↔ '\x00' ∉ p.text ∧ files.read p = .ok (.file content) := by
  rw [contained, bind_eq_ok_iff]
  constructor
  · rintro ⟨n, hopen, h⟩
    cases n with
    | folder entries => cases h
    | file other =>
        cases h
        exact opened_eq_ok_iff.mp hopen
  · intro h
    exact ⟨_, opened_eq_ok_iff.mpr h, rfl⟩

/-- What comes of the text of a content. -/
def decoded (encoding : Text.Encoding) (content : Content) : Except Fault Text :=
  match encoding.decode content.toBytes with
  | .ok s => .ok (Text.unifyLineEnds s)
  | .error fault => .error (.ofCodec fault)

theorem looks_decode (encoding : Text.Encoding) (content : Content) :
    Looks files (decode encoding content) (decoded encoding content) := by
  intro s
  unfold decode decoded
  cases encoding.decode content.toBytes <;> rfl

/-- What comes of reading the text of a file. -/
def textOf (files : SiteTree) (encoding : Text.Encoding) (p : Path) : Except Fault Text := do
  decoded encoding (← contained files p)

theorem looks_readText (encoding : Text.Encoding) :
    Looks files (readText encoding p) (textOf files encoding p) :=
  looks_readContent.bind (looks_decode encoding)

theorem textOf_of_read {content : Content} (hnull : '\x00' ∉ p.text)
    (h : files.read p = .ok (.file content)) (encoding : Text.Encoding) :
    textOf files encoding p = decoded encoding content := by
  rw [textOf, contained_eq_ok_iff.mpr ⟨hnull, h⟩]
  rfl

theorem textOf_of_denied {cause : FileCause} (hnull : '\x00' ∉ p.text)
    (h : files.read p = .error cause) (encoding : Text.Encoding) :
    textOf files encoding p = .error (.file cause p) := by
  rw [textOf, contained, opened, if_neg (by simpa using hnull), h]
  rfl

theorem looks_readText_of_read {content : Content} (hnull : '\x00' ∉ p.text)
    (h : files.read p = .ok (.file content)) (encoding : Text.Encoding) :
    Looks files (readText encoding p) (decoded encoding content) :=
  textOf_of_read hnull h encoding ▸ looks_readText encoding

/-- What comes of listing a folder. -/
def listing (files : SiteTree) (p : Path) : Except Fault (List (Text × Node Content)) :=
  if p.text.contains '\x00' then .error .nullInPath
  else (files.list p).mapError (.file · p)

theorem looks_openFolder : Looks files (openFolder p) (listing files p) := by
  intro s
  unfold openFolder listing
  split
  · rfl
  · simp only [exec_bind, exec_read]
    cases files.list p <;> rfl

theorem listing_eq_ok_iff {entries : List (Text × Node Content)} :
    listing files p = .ok entries ↔ '\x00' ∉ p.text ∧ files.list p = .ok entries := by
  unfold listing
  by_cases hnull : '\x00' ∈ p.text
  · rw [if_pos (by simpa using hnull)]
    exact ⟨fun h => (by cases h), fun h => absurd hnull h.1⟩
  · rw [if_neg (by simpa using hnull)]
    exact mapError_eq_ok_iff.trans ⟨fun h => ⟨hnull, h⟩, fun h => h.2⟩

theorem peeks_of_looks {α : Type} {act : Engine α} {result : Except Fault α}
    (h : Looks files act result) : Peeks files (fun _ => True) act := by
  refine ⟨result, h, ?_⟩
  cases result <;> trivial

theorem peeks_isFile (p : Path) : Peeks files (fun _ => True) (isFile p) :=
  peeks_of_looks looks_isFile

theorem peeks_readText (encoding : Text.Encoding) (p : Path) :
    Peeks files (fun _ => True) (readText encoding p) :=
  peeks_of_looks (looks_readText encoding)

end Engine

end StaticSite
