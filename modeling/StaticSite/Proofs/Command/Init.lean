import StaticSite.Command.Program
import StaticSite.Proofs.Site.Starter

/-!
# Starting a new site in a folder with files

The program looks whether the target is empty before it writes a new site, unless it is forced to go
on or the target is named as the current folder. So without force a file that was there is lost in
the current folder only, and only to the starter file of its name.
-/

namespace StaticSite.Command

open Builder Tree Path Node

/-! ## What runs do to the tree -/

namespace Run

variable {α β : Type}

/-- The result or fault of an action, with the world and the output after it. -/
def exec (act : Run α) (s : World × Output) : Except Fault α × World × Output := act s

/-- The action leaves the tree alone, however it ends. -/
def Quiet (act : Run α) : Prop := ∀ s, (act.exec s).2.1.tree = s.1.tree

/-- However the action ends, the tree is then as `P` says. -/
def Leaves (P : SiteTree → Prop) (act : Run α) (s : World × Output) : Prop :=
  P (act.exec s).2.1.tree

variable {P : SiteTree → Prop} {act : Run α} {next : α → Run β} {s : World × Output}

theorem exec_bind (act : Run α) (next : α → Run β) (s : World × Output) :
    (act >>= next).exec s =
      match act.exec s with
      | (.ok a, after) => (next a).exec after
      | (.error fault, after) => (.error fault, after) := by
  simp only [exec, bind, ExceptT.bind, ExceptT.mk, StateT.bind]
  match act s with
  | (.ok _, _) => rfl
  | (.error _, _) => rfl

theorem exec_perform (act : Builder α) (s : World × Output) :
    (perform act).exec s = ((act.exec s.1).1, (act.exec s.1).2, s.2) := rfl

theorem quiet_pure (a : α) : Quiet (pure a) := fun _ => rfl

theorem quiet_printLine (line : Text) : (printLine line).Quiet := fun _ => rfl

theorem quiet_complain (line : Text) : (complain line).Quiet := fun _ => rfl

theorem quiet_exit (code : Nat) : (exit code).Quiet := fun _ => rfl

theorem quiet_perform {act : Builder α} (h : ∀ w, (act.exec w).2.tree = w.tree) :
    (perform act).Quiet :=
  fun s => h s.1

theorem Quiet.bind (h : act.Quiet) (hnext : ∀ a, (next a).Quiet) : (act >>= next).Quiet := by
  intro s
  have hact := h s
  rw [exec_bind]
  cases hexec : act.exec s with
  | mk result after =>
      rw [hexec] at hact
      cases result with
      | ok a => exact (hnext a after).trans hact
      | error fault => exact hact

theorem quiet_printWritten (styling : Bool) (files : List Text) :
    (printWritten styling files).Quiet := by
  induction files with
  | nil => exact quiet_pure ()
  | cons file files ih => exact (quiet_printLine _).bind fun _ => ih

theorem Quiet.leaves (h : act.Quiet) (hs : P s.1.tree) : act.Leaves P s := by
  rw [Leaves, h s]
  exact hs

theorem Quiet.leaves_bind (h : act.Quiet) (hs : P s.1.tree)
    (hnext : ∀ a s', act.exec s = (.ok a, s') → s'.1.tree = s.1.tree → (next a).Leaves P s') :
    (act >>= next).Leaves P s := by
  have hact := h s
  rw [Leaves, exec_bind]
  cases hexec : act.exec s with
  | mk result after =>
      rw [hexec] at hact
      cases result with
      | ok a => exact hnext a after hexec hact
      | error fault =>
          dsimp only at hact ⊢
          rw [hact]
          exact hs

theorem Leaves.bind_quiet (h : act.Leaves P s) (hnext : ∀ a, (next a).Quiet) :
    (act >>= next).Leaves P s := by
  rw [Leaves] at h
  rw [Leaves, exec_bind]
  cases hexec : act.exec s with
  | mk result after =>
      rw [hexec] at h
      cases result with
      | ok a =>
          dsimp only
          rw [hnext a after]
          exact h
      | error fault => exact h

/-- An action that is told whether it is refused: never under a condition, and otherwise by what a
look has found. -/
theorem Quiet.leaves_unless {look : Run Bool} {free : Bool} {next : Bool → Run β}
    (h : look.Quiet) (hs : P s.1.tree)
    (hnext : ∀ refused s', s'.1.tree = s.1.tree →
      (refused = false → free ∨ ∃ s'', look.exec s = (.ok true, s'')) →
      (next refused).Leaves P s') :
    Leaves P (if free then do
        let refused ← pure false
        next refused
      else do
        let found ← look
        let refused ← pure !found
        next refused) s := by
  split
  · rename_i hfree
    exact hnext false s rfl fun _ => .inl hfree
  · refine h.leaves_bind hs fun found s' hlook htree => ?_
    refine hnext (!found) s' htree fun hfound => .inr ⟨s', ?_⟩
    rw [hlook]
    cases found with
    | true => rfl
    | false => cases hfound

end Run

/-- The tree after a run is the one that its command leaves. -/
theorem tree_run {styling : Bool} {words : List Text} {r : Request} {w : World}
    (h : Request.read words = .ok r) :
    (run styling words w).2.tree = ((runAction styling r).exec (w, ⟨0, [], []⟩)).2.1.tree := by
  unfold run
  rw [h]
  dsimp only [Run.exec]
  rcases runAction styling r (w, ⟨0, [], []⟩) with ⟨fault | u, world, output⟩
  · dsimp only
    split <;> rfl
  · rfl

/-! ## What starting a new site does to the tree -/

section Init

variable {P : SiteTree → Prop} {styling : Bool} {r : Request} {s : World × Output}

theorem exec_resolve (p : Path) (w : World) :
    (Request.resolve p).exec w =
      (if p.text.contains '\x00' then .error .nullInPath else .ok (w.tree.resolve p), w) := by
  unfold Request.resolve
  split <;> rfl

theorem quiet_resolve (p : Path) : (Run.perform (Request.resolve p)).Quiet :=
  Run.quiet_perform fun w => by rw [exec_resolve]

theorem eq_of_resolve {p found : Path} {s' : World × Output}
    (h : (Run.perform (Request.resolve p)).exec s = (.ok found, s')) :
    found = s.1.tree.resolve p := by
  rw [Run.exec_perform, exec_resolve] at h
  have hresult := congrArg Prod.fst h
  dsimp only at hresult
  split at hresult
  · cases hresult
  · cases hresult
    rfl

/-- What lets the command write into a target: its name is that of the current folder, or writing is
forced, or the target counts as empty. -/
def Request.MayWrite (r : Request) (t : SiteTree) (target : Path) : Prop :=
  r.argument = "." ∨ r.reading.has "force" ∨
    ∃ session, ((Starter.isEmptyFolder target).exec t session).1 = .ok true

theorem mayWrite_of_asked {target : Path} (h : (r.argument == ['.'] || r.reading.has "force") ∨
    ∃ s', (Run.perform (observe (Starter.isEmptyFolder target))).exec s = (.ok true, s')) :
    r.MayWrite s.1.tree target := by
  rcases h with hfree | ⟨s', hlook⟩
  · rw [Bool.or_eq_true, beq_iff_eq] at hfree
    exact hfree.imp_right .inl
  · rw [Run.exec_perform, exec_observe] at hlook
    exact .inr (.inr ⟨_, congrArg Prod.fst hlook⟩)

/-- All that the command does to the tree: it writes a new site into the target if it may. -/
theorem leaves_runInit (hs : P s.1.tree)
    (hcreate : ∀ target session, target = s.1.tree.resolve (ofText r.argument) →
      r.MayWrite s.1.tree target →
        P ((Starter.create target target.name).exec ⟨s.1.tree, session⟩).2.tree) :
    (runInit styling r).Leaves P s := by
  unfold runInit
  refine (quiet_resolve _).leaves_bind hs fun target s₁ hresolve htree₁ => ?_
  refine Run.Quiet.leaves_unless (Run.quiet_perform fun w => rfl) (htree₁ ▸ hs)
    fun refused s₂ htree₂ hasked => ?_
  have hs₂ : P s₂.1.tree := htree₂.trans htree₁ ▸ hs
  split
  · exact ((Run.quiet_complain _).bind fun _ => Run.quiet_exit _).leaves hs₂
  · rename_i hwrites
    refine (Run.quiet_printLine _).leaves_bind hs₂ fun _ s₃ _ htree₃ => ?_
    -- Everything behind the writing prints, and the tree stays as the writing left it.
    refine Run.Leaves.bind_quiet ?_ fun written => ?_
    · have hmay : r.MayWrite s.1.tree target :=
        htree₁ ▸ mayWrite_of_asked (hasked (by simpa using hwrites))
      have hworld : s₃.1 = ⟨s.1.tree, s₃.1.session⟩ := by rw [← htree₁, ← htree₂, ← htree₃]
      have hcreated := hcreate target s₃.1.session (eq_of_resolve hresolve) hmay
      rw [← hworld] at hcreated
      exact hcreated
    · refine (Run.quiet_printWritten _ _).bind fun _ => ?_
      refine (Run.quiet_printLine _).bind fun _ => ?_
      refine (Run.quiet_printLine _).bind fun _ => ?_
      refine (Run.quiet_printLine _).bind fun _ => ?_
      split
      · exact (Run.quiet_printLine _).bind fun _ => Run.quiet_printLine _
      · exact Run.quiet_printLine _

/-- Without force, and however the command ends, a file that was there is as it was, unless the
target is named as the current folder: then it may be a starter file of the new site instead. -/
theorem files_of_init {words : List Text} {w : World} (hwf : w.tree.WellFormed)
    (hread : Request.read words = .ok r) (hinit : r.action = .init)
    (hforce : r.reading.has "force" = false) {q : List Text} {content : Content}
    (hq : w.tree.root.get? q = some (.file content)) :
    (run styling words w).2.tree.root.get? q = some (.file content) ∨
      r.argument = "." ∧ ∃ new,
        Starter.IsStarterFile w.tree.current (w.tree.current.getLast?.getD []) q new ∧
        (run styling words w).2.tree.root.get? q = some (.file new) := by
  have haction : runAction styling r = runInit styling r := by rw [runAction, hinit]
  rw [tree_run hread, haction]
  refine leaves_runInit (P := fun u => u.root.get? q = some (.file content) ∨ r.argument = "." ∧
    ∃ new, Starter.IsStarterFile w.tree.current (w.tree.current.getLast?.getD []) q new ∧
      u.root.get? q = some (.file new)) (.inl hq) fun target session htarget hmay => ?_
  have hparts : target.parts = w.tree.spot (ofText r.argument) := by
    rw [htarget, parts_resolve hwf.parentName_notMem_current]
  have hproper : target.IsProper := htarget ▸ hwf.isProper_resolve (isProper_ofText _)
  rcases hmay with hhere | hforced | ⟨s, hempty⟩
  · have hcurrent : target.parts = w.tree.current := by
      rw [hparts, hhere]
      rfl
    have hspot : w.tree.spot target = w.tree.current := by
      rw [htarget, hwf.spot_resolve, ← hparts, hcurrent]
    have hfile := @Starter.file_of_create target.name ⟨w.tree, session⟩ _ _ _ hwf hproper hq
    rw [hspot, Path.name, hcurrent] at hfile
    rw [Path.name, hcurrent]
    exact hfile.imp_right fun hstarter => ⟨hhere, hstarter⟩
  · rw [hforce] at hforced
    cases hforced
  · refine .inl (Starter.file_of_create_of_isEmptyFolder hwf hproper ?_ hempty hq)
    rw [hparts]
    exact hwf.parentName_notMem_spot _

end Init

/-! ## A folder with notes of its own -/

section Here

/-- A current folder with files of which one has the name of a starter file. -/
def hereFiles : SiteTree :=
  ⟨.folder [("work", .folder [("README.md", textFile "mine"), ("notes.txt", textFile "mine")])],
    ["work"]⟩

theorem wellFormed_hereFiles : hereFiles.WellFormed :=
  wellFormed_of_descendants (by decide) (by decide) ⟨_, rfl⟩

def initRequest (name : Text) : Request := ⟨false, .init, [], some [name], []⟩

/-- Named otherwise, the current folder keeps all its files; named as such, those that are not among
the starter files. -/
theorem files_of_init_here :
    (run false ["init", "./"] ⟨hereFiles, .start⟩).2.tree.root.get? ["work", "README.md"] =
        some (textFile "mine") ∧
      (run false ["init", "."] ⟨hereFiles, .start⟩).2.tree.root.get? ["work", "notes.txt"] =
        some (textFile "mine") := by
  constructor
  · have hread : Request.read ["init", "./"] = .ok (initRequest "./") := rfl
    refine (files_of_init wellFormed_hereFiles hread rfl rfl rfl).resolve_right ?_
    rintro ⟨hhere, -⟩
    exact absurd hhere (by decide)
  · have hread : Request.read ["init", "."] = .ok (initRequest ".") := rfl
    refine (files_of_init wellFormed_hereFiles hread rfl rfl rfl).resolve_right ?_
    rintro ⟨-, new, ⟨f, hf, hplace, -⟩, -⟩
    have hother : ∀ f ∈ Starter.files, ["work".toList, "notes.txt".toList] ≠
        ["work".toList] ++ (ofText f.1).parts := by decide
    exact hother f hf hplace

/-- The program takes the current folder for its target and writes over a file in it. -/
theorem init_writes_over :
    ∃ r old new, Request.read ["init", "."] = .ok r ∧ r.action = .init ∧
      r.reading.has "force" = false ∧ hereFiles.WellFormed ∧
      hereFiles.root.get? ["work", "README.md"] = some (.file old) ∧
      (run false ["init", "."] ⟨hereFiles, .start⟩).2.tree.root.get? ["work", "README.md"] =
        some (.file new) ∧
      old.toBytes ≠ new.toBytes := by
  have hfirst : (bytesOf? ((run false ["init", "."] ⟨hereFiles, .start⟩).2.tree.find
      (ofText "/work/README.md"))).map (·.head?) = some (some 35) := by
    decide +kernel
  obtain ⟨data, hdata, hhead⟩ := Option.map_eq_some_iff.mp hfirst
  have hnew := (find_eq_ok_iff.mp (find_of_bytesOf? hdata)).2
  refine ⟨initRequest ".", .bytes (Text.encodeUtf8 "mine"), .bytes data, rfl, rfl, rfl,
    wellFormed_hereFiles, rfl, hnew, fun heq => ?_⟩
  have hold : (Text.encodeUtf8 "mine").head? = some 109 := by decide
  have hbytes : Text.encodeUtf8 "mine" = data := heq
  rw [hbytes, hhead] at hold
  exact absurd hold (by decide)

end Here

end StaticSite.Command
