import StaticSite.Proofs.Asset.Endings
import StaticSite.Proofs.Compile.Unread
import StaticSite.Proofs.Component.Moves
import StaticSite.Proofs.Files.Changes
import StaticSite.Site.Build

/-!
# What running modules leaves behind

A page is built by running the modules of its components, and the bytecode of these modules stays.
All of it is of sources that the folders of a provider look for, and is left where the runtime keeps
it. On the disk no other file is touched by it.
-/

namespace StaticSite

open Engine

/-- The runtime keeps the bytecode of a source that the folders look for at this path. -/
def Folders.Caches (f : Folders) (files : SiteTree) (cache : Path) : Prop :=
  ∃ base ∈ f.paths, ∃ identifier,
    Loader.ofPath? (f.producerPath base identifier) = some .source ∧
      f.runtime.cache (files.absolute (f.producerPath base identifier)) = some cache

def Provider.Caches (p : Provider) (files : SiteTree) (cache : Path) : Prop :=
  ∃ f ∈ p.leaves, f.Caches files cache

theorem Provider.caches_of_current {p : Provider} {t u : SiteTree} (h : u.current = t.current)
    {cache : Path} : p.Caches u cache ↔ p.Caches t cache := by
  unfold Provider.Caches Folders.Caches Tree.absolute
  rw [h]

theorem Provider.keepsOnly_caches (p : Provider) (files : SiteTree) :
    KeepsOnly (fun k => p.Caches files k.1) p.leaves files :=
  fun f hf base hbase identifier _ _ hready _ hk =>
    ⟨f, hf, base, hbase, identifier, Loading.cache_of_loaded_ready hready hk⟩

/-! ## In a session -/

/-- Bytecode was left between the two sessions, all of it of a kind. -/
def Session.Gains (kind : Bytecode) (s t : Session) : Prop :=
  ∃ more, t.bytecode = s.bytecode ++ more ∧ ∀ k ∈ more, kind k

section Gains

variable {kind : Bytecode} {files : SiteTree} {s t : Session}

theorem Session.gains_of_eq (h : t.bytecode = s.bytecode) : s.Gains kind t :=
  ⟨[], by rw [h, List.append_nil], by simp⟩

theorem Session.Gains.trans {u : Session} (h : s.Gains kind t) (h' : t.Gains kind u) :
    s.Gains kind u := by
  obtain ⟨more, ht, hmore⟩ := h
  obtain ⟨rest, hu, hrest⟩ := h'
  refine ⟨more ++ rest, by rw [hu, ht, List.append_assoc], fun k hk => ?_⟩
  exact (List.mem_append.mp hk).elim (hmore k) (hrest k)

theorem stepwise_gains : Stepwise kind (Session.Gains kind) where
  refl := fun _ => Session.gains_of_eq rfl
  trans := Session.Gains.trans
  record := fun _ _ => Session.gains_of_eq rfl
  note := fun _ _ => Session.gains_of_eq rfl
  counters := fun _ _ => Session.gains_of_eq rfl
  keep := fun _ kept h => ⟨kept, rfl, h⟩

theorem moves_gains_of_reports {α : Type} {act : Engine α} {result : Except Fault α}
    {records : List LogRecord} (h : Reports files act result records) :
    Moves files (Session.Gains kind) act := by
  intro s
  rw [h s]
  exact Session.gains_of_eq rfl

theorem Compiler.gains_compile {c : Compiler} (hkept : KeepsOnly kind c.provider.leaves files)
    (html : Text) (page : Option Text) :
    Moves files (Session.Gains kind) (c.compile html page) := by
  refine (closed_moves stepwise_gains).compileNested (fun ctx act h s => ?_) hkept _ html page
  -- The context is no bytecode.
  obtain ⟨more, hmore, hkind⟩ := h { s with context := some ctx }
  exact ⟨more, hmore, hkind⟩

/-- Building a page leaves bytecode of the sources of its provider. -/
theorem Environment.gains_buildPage (e : Environment) (files : SiteTree) (page : Text) :
    Moves files (Session.Gains fun k => e.provider.Caches files k.1) (e.buildPage page) := by
  have hR := @stepwise_gains fun k => e.provider.Caches files k.1
  have hread := (@looks_readText files (e.pagePath page) .utf8).reports
  have hcompile := e.compiler.gains_compile (e.provider.keepsOnly_caches files)
  obtain ⟨_, -, hstyles⟩ := Asset.logs_inlineStylesheets files e.assetRoots
  obtain ⟨_, -, hscripts⟩ := Asset.logs_inlineScripts files e.assetRoots e.markers
  have hpure (html : Text) : Moves files (Session.Gains fun k => e.provider.Caches files k.1)
      (pure html : Engine Text) := (closed_moves hR).pure html
  have hlast (html : Text) : Moves files (Session.Gains fun k => e.provider.Caches files k.1) (do
      let html ← if e.inlineJs then e.inlineScripts html else pure html
      return Asset.stripDevScripts e.markers (Markup.clearHoles html)) := by
    split
    · exact (moves_gains_of_reports (hscripts html).reports).bind hR fun _ => hpure _
    · exact hpure _
  refine (moves_gains_of_reports hread).bind hR fun source => ?_
  refine (hcompile source (some page)).bind hR fun html => ?_
  by_cases hcss : e.inlineCss
  · rw [if_pos hcss]
    exact (moves_gains_of_reports (hstyles html).reports).bind hR hlast
  · rw [if_neg hcss]
    exact hlast html

end Gains

/-! ## On the disk -/

namespace Tree

variable {α : Type} {t : Tree α}

/-- Folders that are made, or not, where they cannot be. -/
theorem spares_makeEach (ht : t.Tidy) (folders : List Path) : Spares (fun _ => False) t
    (folders.foldl (fun t folder => (t.makeFolder folder).toOption.getD t) t) := by
  induction folders generalizing t with
  | nil => exact .refl _ t
  | cons folder folders ih =>
      have hfirst : Spares (fun _ => False) t ((t.makeFolder folder).toOption.getD t) := by
        cases hmake : t.makeFolder folder with
        | ok u => exact spares_of_makeFolder ht hmake
        | error cause => exact .refl _ t
      exact hfirst.trans (ih (hfirst.tidy ht))

/-- A file that is left is the only one that is touched. -/
theorem spares_leave (ht : t.Tidy) (p : Path) (content : α) :
    Spares (fun q => q = t.spot p) t (t.leave p content) := by
  have hmade := spares_makeEach ht p.above
  unfold leave
  generalize p.above.foldl _ t = made at hmade
  refine (hmade.mono fun _ => False.elim).trans ?_
  change Spares _ made ((made.writeFile p content).toOption.getD made)
  cases hwrite : made.writeFile p content with
  | ok u => exact hmade.spot p ▸ spares_of_writeFile (hmade.tidy ht) hwrite
  | error cause => exact .refl _ made

/-- What is in a file that is there in the end is what was left, or was in it before. -/
theorem file_of_leave (ht : t.Tidy) {p : Path} {content other : α} {q : List Text}
    (h : (t.leave p content).root.get? q = some (.file other)) :
    other = content ∨ t.root.get? q = some (.file other) := by
  have hmade := spares_makeEach ht p.above
  unfold leave at h
  generalize p.above.foldl _ t = made at hmade h
  change ((made.writeFile p content).toOption.getD made).root.get? q = _ at h
  cases hwrite : made.writeFile p content with
  | error cause =>
      rw [hwrite] at h
      exact .inr ((hmade.files q other id).mp h)
  | ok u =>
      rw [hwrite] at h
      have hwritten := (made_of_writeFile (hmade.tidy ht) hwrite).placed
      by_cases hq : q = made.spot p
      · subst hq
        cases hwritten.at_place.symm.trans h
        exact .inl rfl
      · exact .inr ((hmade.files q other id).mp ((hwritten.files q other hq).mp h))

end Tree

/-- On the disk no file is touched but where there is bytecode. -/
theorem World.spares_disk {w : World} (ht : w.tree.Tidy) {written : List Text → Prop}
    (h : ∀ k ∈ w.session.bytecode, written (w.tree.spot k.1)) :
    Tree.Spares written w.tree w.disk := by
  unfold disk
  generalize w.tree = t at ht h
  generalize w.session.bytecode = remains at h
  induction remains generalizing t with
  | nil => exact .refl _ t
  | cons k remains ih =>
      have hfirst : Tree.Spares written t (t.leave k.1 (.bytes k.2)) := by
        refine (Tree.spares_leave ht k.1 _).mono ?_
        rintro q rfl
        exact h k List.mem_cons_self
      refine hfirst.trans (ih _ (hfirst.tidy ht) fun later hlater => ?_)
      rw [hfirst.spot]
      exact h later (List.mem_cons_of_mem k hlater)

/-- A file on the disk is one of the tree, or bytecode. -/
theorem World.file_of_disk {w : World} (ht : w.tree.Tidy) {q : List Text} {content : Content}
    (h : w.disk.root.get? q = some (.file content)) :
    (∃ data, content = .bytes data) ∨ w.tree.root.get? q = some (.file content) := by
  unfold disk at h
  generalize w.tree = t at ht h
  generalize w.session.bytecode = remains at h
  induction remains generalizing t with
  | nil => exact .inr h
  | cons k remains ih =>
      have hfirst := (Tree.spares_leave ht k.1 (Content.bytes k.2)).tidy ht
      rcases ih _ hfirst h with hbytes | hbefore
      · exact .inl hbytes
      · exact (Tree.file_of_leave ht hbefore).imp_left fun heq => ⟨k.2, heq⟩

/-- Bytecode is left at the place. -/
def World.Leaves (w : World) (q : List Text) : Prop :=
  ∃ k ∈ w.session.bytecode, q = (w.tree.resolve k.1).parts

theorem World.spares_leaves {w : World} (ht : w.tree.Tidy)
    (hup : Tree.parentName ∉ w.tree.current) : Tree.Spares w.Leaves w.tree w.disk :=
  World.spares_disk ht fun k hk => ⟨k, hk, (Tree.parts_resolve hup k.1).symm⟩

/-- A file where no bytecode is left is on the disk as it is in the tree. -/
theorem World.find_disk {w : World} (ht : w.tree.Tidy) (hup : Tree.parentName ∉ w.tree.current)
    {p : Path} {content : Content} (hfile : w.tree.find p = .ok (.file content))
    (hspared : ¬w.Leaves (w.tree.resolve p).parts) : w.disk.find p = .ok (.file content) :=
  (World.spares_leaves ht hup).find_file hfile (Tree.parts_resolve hup p ▸ hspared)

theorem World.changes_disk {w : World} (ht : w.tree.WellFormed) (hdisk : w.disk.WellFormed) :
    Tree.Changes w.Leaves w.tree w.disk := by
  constructor
  case toSpares => exact World.spares_leaves ht.toTidy ht.parentName_notMem_current
  case wellFormed => exact hdisk
  case modules =>
    intro q module hq
    rcases World.file_of_disk ht.toTidy hq with ⟨data, hbytes⟩ | hbefore
    · cases hbytes
    · exact ⟨q, hbefore⟩

end StaticSite
