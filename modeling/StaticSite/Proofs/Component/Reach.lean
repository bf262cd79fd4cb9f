import StaticSite.Proofs.Component.Search
import StaticSite.Proofs.Files.Suffixes
import StaticSite.Proofs.Files.Walk

/-!
# Which files a look-up touches

An `Access` is all that folders ask of a file system. A look-up touches only some paths when it is
the same over any two accesses that agree on them. -/

namespace StaticSite

open Engine

namespace Engine

variable {α β : Type} {files : SiteTree}

/-- The two actions do the same over the files. -/
def SameOver (files : SiteTree) (act other : Engine α) : Prop :=
  ∀ s, act.exec files s = other.exec files s

namespace SameOver

variable {act other : Engine α}

theorem refl (act : Engine α) : SameOver files act act := fun _ => rfl

theorem bind {next otherNext : α → Engine β} (h : SameOver files act other)
    (hnext : ∀ a, SameOver files (next a) (otherNext a)) :
    SameOver files (act >>= next) (other >>= otherNext) := by
  intro s
  rw [exec_bind, exec_bind, h s]
  cases other.exec files s with
  | mk result after =>
      cases result with
      | ok a => exact hnext a after
      | error fault => rfl

theorem attempt (h : SameOver files act other) :
    SameOver files (Engine.attempt act) (Engine.attempt other) := by
  intro s
  rw [exec_attempt, exec_attempt, h s]

theorem mapM {f g : α → Engine β} {as : List α} (h : ∀ a ∈ as, SameOver files (f a) (g a)) :
    SameOver files (as.mapM f) (as.mapM g) := by
  induction as with
  | nil => exact refl _
  | cons a as ih =>
      rw [List.mapM_cons, List.mapM_cons]
      refine (h a List.mem_cons_self).bind fun b => ?_
      exact (ih fun other hother => h other (List.mem_cons_of_mem a hother)).bind fun bs => refl _

end SameOver

end Engine

namespace Access

variable {files : SiteTree} {P : Path → Prop} {a b : Access} {p : Path}

/-- Over the files the two accesses give the same at the paths of which `P` holds, and list the same
below the bases. -/
structure AgreeOn (files : SiteTree) (P : Path → Prop) (bases : List Path) (a b : Access) :
    Prop where
  find? : ∀ p, P p → SameOver files (a.find? p) (b.find? p)
  readContent : ∀ p, P p → SameOver files (a.readContent p) (b.readContent p)
  listSuffix : ∀ base ∈ bases, ∀ suffix,
    SameOver files (a.listSuffix base suffix) (b.listSuffix base suffix)

namespace AgreeOn

variable {bases : List Path} (h : AgreeOn files P bases a b) (hp : P p)
include h hp

theorem isFile : SameOver files (a.isFile p) (b.isFile p) :=
  (h.find? p hp).bind fun _ => .refl _

theorem isFolder : SameOver files (a.isFolder p) (b.isFolder p) :=
  (h.find? p hp).bind fun _ => .refl _

theorem readText (encoding : Text.Encoding) :
    SameOver files (a.readText encoding p) (b.readText encoding p) :=
  (h.readContent p hp).bind fun _ => .refl _

end AgreeOn

/-- No file is anywhere, and nothing can be read or listed. -/
def barren : Access where
  find? _ := pure none
  readContent p := throw (.file .missing p)
  listSuffix p _ := throw (.file .missing p)

def alarm : Fault := .stopped [] []

/-- No file is anywhere, and looking for one at `p` stops the program. -/
def trap (p : Path) : Access :=
  { barren with find? := fun q => if q = p then throw alarm else pure none }

end Access

namespace Folders

variable {f : Folders} {files : SiteTree} {identifier : Text} {P : Path → Prop} {a b : Access}
  {bases : List Path} {reenter : Reentry} {p : Path}

/-- What is touched in a base: the two candidates, and where the file of a producer is loaded, its
path from the root and the bytecode of a source. -/
inductive Touched (f : Folders) (files : SiteTree) (base : Path) (identifier : Text) : Path → Prop
  | markup : Touched f files base identifier (f.markupPath base identifier)
  | producer : Touched f files base identifier (f.producerPath base identifier)
  | loaded (loader : Loader) (h : Loader.ofPath? (f.producerPath base identifier) = some loader) :
      Touched f files base identifier (files.absolute (f.producerPath base identifier))
  | bytecode (h : Loader.ofPath? (f.producerPath base identifier) = some .source) {cache : Path}
      (hcache : f.runtime.cache (files.absolute (f.producerPath base identifier)) = some cache) :
      Touched f files base identifier cache

/-- The look-up of a component looks for files and reads them nowhere but at paths of which `P`
holds, and lists nothing but the bases, when there is no component. -/
def TouchesOnly (f : Folders) (files : SiteTree) (identifier : Text) (P : Path → Prop) : Prop :=
  ∀ reenter (a b : Access), a.AgreeOn files P f.paths b →
    SameOver files (resolveVia a f reenter identifier) (resolveVia b f reenter identifier)

section Congruence

variable (h : a.AgreeOn files P f.paths b)
include h

theorem same_ofFile (hloaded : ∀ loader, Loader.ofPath? p = some loader → P (files.absolute p))
    (hcache : Loader.ofPath? p = some .source → ∀ cache,
      f.runtime.cache (files.absolute p) = some cache → P cache) :
    SameOver files (Loading.ofFile a f.runtime p) (Loading.ofFile b f.runtime p) := by
  intro s
  unfold Loading.ofFile
  rw [exec_bind, exec_bind, exec_read]
  simp only
  cases hloader : Loader.ofPath? p with
  | none => rfl
  | some loader =>
      have hread := (h.readContent _ (hloaded loader hloader)).attempt
      cases loader with
      | bytecode => exact hread.bind (fun _ => .refl _) s
      | native => exact hread.bind (fun _ => .refl _) s
      | source =>
          have hreuse : SameOver files (Loading.reuse a f.runtime (files.absolute p))
              (Loading.reuse b f.runtime (files.absolute p)) := by
            unfold Loading.reuse
            cases hkept : f.runtime.cache (files.absolute p) with
            | none => exact (h.find? _ (hloaded _ hloader)).attempt.bind fun _ => .refl _
            | some cache =>
                refine (h.find? _ (hloaded _ hloader)).attempt.bind fun there => ?_
                match there with
                | .error fault => exact .refl _
                | .ok none => exact .refl _
                | .ok (some (.folder entries)) => exact .refl _
                | .ok (some (.file content)) =>
                    exact (h.readContent cache (hcache hloader cache hkept)).attempt.bind
                      fun _ => .refl _
          refine (hreuse.bind fun reused => ?_) s
          cases reused with
          | some result => exact .refl _
          | none => exact hread.bind fun _ => .refl _

theorem same_resolveAt {base : Path} (hbase : ∀ p, f.Touched files base identifier p → P p) :
    SameOver files (resolveAtVia a f reenter identifier base)
      (resolveAtVia b f reenter identifier base) := by
  have hread : SameOver files (readMarkupVia a f (f.markupPath base identifier))
      (readMarkupVia b f (f.markupPath base identifier)) := by
    refine (h.isFile (hbase _ .markup)).bind fun there => ?_
    cases there with
    | false => exact .refl (pure none)
    | true => exact (h.readText (hbase _ .markup) f.encoding).attempt.bind fun _ => .refl _
  refine hread.bind fun markup => ?_
  cases markup with
  | some markup => exact .refl (pure _)
  | none =>
      refine (h.isFile (hbase _ .producer)).bind fun there => ?_
      cases there with
      | false => exact .refl (pure none)
      | true =>
          have hload := same_ofFile (p := f.producerPath base identifier) h
            (fun loader hloader => hbase _ (.loaded loader hloader))
            fun hloader cache hcache => hbase _ (.bytecode hloader hcache)
          have hproduce : SameOver files
              (loadProducerVia a f reenter identifier (f.producerPath base identifier))
              (loadProducerVia b f reenter identifier (f.producerPath base identifier)) := by
            unfold loadProducerVia
            exact hload.bind fun loading => .refl _
          exact hproduce.bind fun value => .refl _

theorem same_search (hbases : ∀ base ∈ bases, ∀ p, f.Touched files base identifier p → P p) :
    SameOver files (searchVia a f reenter identifier bases)
      (searchVia b f reenter identifier bases) := by
  induction bases with
  | nil => exact .refl (pure (Finding.missed none))
  | cons base bases ih =>
      rw [searchVia_cons, searchVia_cons, orThen, orThen]
      have hvisit : SameOver files (visit (resolveAtVia a f reenter identifier base))
          (visit (resolveAtVia b f reenter identifier base)) := by
        have hhere : SameOver files (resolveAtVia a f reenter identifier base) _ :=
          same_resolveAt h (hbases base List.mem_cons_self)
        unfold visit endAs
        exact hhere.attempt.bind fun outcome => .refl _
      refine hvisit.bind fun found => ?_
      cases found with
      | found source => exact .refl (pure (Finding.found source))
      | missed held =>
          rw [goOn, goOn]
          exact (ih fun other hother => hbases other (List.mem_cons_of_mem base hother)).bind
            fun rest => .refl _

theorem same_absent (hbases : ∀ base ∈ f.paths, P base) :
    SameOver files (absentVia a f identifier) (absentVia b f identifier) := by
  have hlist :
      SameOver files (f.paths.mapM (listBaseVia a f)) (f.paths.mapM (listBaseVia b f)) := by
    refine .mapM fun base hbase => (h.isFolder (hbases base hbase)).bind fun there => ?_
    cases there with
    | false => exact .refl _
    | true =>
        refine (h.listSuffix base hbase _).bind fun markups => ?_
        exact (h.listSuffix base hbase _).bind fun producers => .refl _
  exact (hlist.bind fun _ => .refl _).bind fun _ => .refl _

end Congruence

theorem touchesOnly_of_touched (h : ∀ base ∈ f.paths, P base ∧
    ∀ p, f.Touched files base identifier p → P p) : f.TouchesOnly files identifier P := by
  intro reenter a b hagree
  rw [resolveVia_eq, resolveVia_eq]
  refine (same_search hagree fun base hbase => (h base hbase).2).bind fun found => ?_
  match found with
  | .found source => exact .refl (pure source)
  | .missed (some failure) => exact .refl (throw failure.fault)
  | .missed none => exact same_absent hagree fun base hbase => (h base hbase).1

/-! ### Each base and each candidate is looked at -/

theorem searchVia_barren (bases : List Path) :
    searchVia .barren f reenter identifier bases = pure (.missed none) := by
  induction bases with
  | nil => rfl
  | cons base bases ih =>
      have hvisit : visit (resolveAtVia .barren f reenter identifier base) =
        pure (.missed none) := rfl
      rw [searchVia_cons, hvisit, missed_orThen, ih]

theorem resolveAtVia_trap (base : Path) :
    resolveAtVia (.trap p) f reenter identifier base =
      if f.markupPath base identifier = p ∨ f.producerPath base identifier = p then
        throw Access.alarm
      else pure none := by
  have hisFile (q : Path) : (Access.trap p).isFile q =
      if q = p then throw Access.alarm else pure false := by
    unfold Access.isFile Access.trap
    simp only
    split <;> rfl
  unfold resolveAtVia readMarkupVia
  simp only [hisFile]
  by_cases hmarkup : f.markupPath base identifier = p
  · rw [if_pos hmarkup, if_pos (Or.inl hmarkup)]
    rfl
  · by_cases hproducer : f.producerPath base identifier = p
    · rw [if_neg hmarkup, if_pos hproducer, if_pos (Or.inr hproducer)]
      rfl
    · rw [if_neg hmarkup, if_neg hproducer, if_neg (not_or.mpr ⟨hmarkup, hproducer⟩)]
      rfl

/-- A trap at a candidate is run into; at no candidate it is not noticed. -/
theorem searchVia_trap (bases : List Path) :
    searchVia (.trap p) f reenter identifier bases =
      if ∃ base ∈ bases, f.markupPath base identifier = p ∨ f.producerPath base identifier = p then
        throw Access.alarm
      else pure (.missed none) := by
  induction bases with
  | nil => rfl
  | cons first bases ih =>
      rw [searchVia_cons, resolveAtVia_trap]
      by_cases hfirst : f.markupPath first identifier = p ∨ f.producerPath first identifier = p
      · rw [if_pos hfirst, if_pos ⟨first, List.mem_cons_self, hfirst⟩]
        rfl
      · have hvisit : visit (pure none : Engine (Option Source)) = pure (.missed none) := rfl
        rw [if_neg hfirst, hvisit, missed_orThen, ih]
        simp [hfirst]

theorem listBaseVia_trap (base : Path) : listBaseVia (.trap p) f base =
    if base = p then throw Access.alarm else pure [] := by
  unfold listBaseVia Access.isFolder Access.trap
  simp only
  split <;> rfl

theorem absentVia_trap (hp : p ∈ f.paths) :
    absentVia (.trap p) f identifier = throw Access.alarm := by
  have hlist (bases : List Path) (hbase : p ∈ bases) :
      bases.mapM (listBaseVia (.trap p) f) = throw Access.alarm := by
    induction bases with
    | nil => cases hbase
    | cons first bases ih =>
        rw [List.mapM_cons, listBaseVia_trap]
        by_cases hfirst : first = p
        · rw [if_pos hfirst]
          rfl
        · rw [if_neg hfirst, pure_bind, ih ((List.mem_cons.mp hbase).resolve_left (Ne.symm hfirst))]
          rfl
  rw [absentVia, listVia, hlist f.paths hp]
  rfl

theorem absentVia_barren : absentVia .barren f identifier =
    throw (.componentNotFound identifier (f.paths.map Path.text) []) := by
  have hlist (bases : List Path) : bases.mapM (listBaseVia .barren f) =
      pure (List.replicate bases.length []) := by
    induction bases with
    | nil => rfl
    | cons base bases ih =>
        rw [List.mapM_cons, ih]
        rfl
  have hflatten (n : Nat) : (List.replicate n ([] : List Text)).flatten = [] := by simp
  rw [absentVia, listVia, hlist, pure_bind, hflatten]
  rfl

/-- The look-up touches each base and its two candidates. -/
theorem TouchesOnly.candidates (h : f.TouchesOnly files identifier P) :
    ∀ base ∈ f.paths, P base ∧ P (f.markupPath base identifier) ∧
      P (f.producerPath base identifier) := by
  have htouched (p : Path) (hp : p ∈ f.paths ∨ ∃ base ∈ f.paths,
      f.markupPath base identifier = p ∨ f.producerPath base identifier = p) : P p := by
    refine Classical.byContradiction fun hnot => ?_
    have hagree : Access.barren.AgreeOn files P f.paths (.trap p) :=
      { find? := by
          intro q hq s
          have hother : q ≠ p := by
            rintro rfl
            exact hnot hq
          change _ = exec (if q = p then throw Access.alarm else pure none) files s
          rw [if_neg hother]
          rfl
        readContent := fun _ _ => .refl _
        listSuffix := fun _ _ _ => .refl _ }
    have htrap : resolveVia (.trap p) f (fun _ _ => throw Access.alarm) identifier =
        throw Access.alarm := by
      rw [resolveVia_eq, searchVia_trap]
      split
      · rfl
      · rename_i hcandidate
        rw [pure_bind, conclude, absentVia_trap (hp.resolve_right hcandidate)]
    have hsame := h (fun _ _ => throw Access.alarm) .barren (.trap p) hagree .start
    rw [htrap, resolveVia_eq, searchVia_barren, pure_bind, conclude, absentVia_barren] at hsame
    cases hsame
  intro base hbase
  exact ⟨htouched base (.inl hbase), htouched _ (.inr ⟨base, hbase, .inl rfl⟩),
    htouched _ (.inr ⟨base, hbase, .inr rfl⟩)⟩

end Folders

/-! ## Candidates below their bases -/

namespace Path

/-- The path is the base followed by at least one further part, and by none that leads up. -/
def IsUnder (base p : Path) : Prop :=
  ∃ parts, parts ≠ [] ∧ Tree.parentName ∉ parts ∧ p = base.below parts

/-- Behind any base the text leads to something below it. -/
structure LeadsDown (s : Text) : Prop where
  relative : (ofText s).isAbsolute = false
  some_part : (ofText s).parts ≠ []
  never_up : Tree.parentName ∉ (ofText s).parts

theorem child_of_relative {s : Text} (h : (ofText s).isAbsolute = false) (base : Path) :
    base.child s = base.below (ofText s).parts := by
  have happend : base.child s = if (ofText s).isAbsolute then ofText s
    else ⟨base.anchor, base.parts ++ (ofText s).parts⟩ := rfl
  rw [happend, h]
  rfl

theorem spot_child_of_leadsDown (files : SiteTree) {s : Text} (h : LeadsDown s) (base : Path) :
    files.spot (base.child s) = files.spot base ++ (ofText s).parts := by
  rw [child_of_relative h.relative, Tree.spot_below files base h.never_up]

theorem below_injective {base : Path} {parts more : List Text}
    (h : base.below parts = base.below more) : parts = more :=
  List.append_cancel_left (congrArg Path.parts h)

theorem isUnder_child_iff {s : Text} (h : (ofText s).isAbsolute = false) (base : Path) :
    base.IsUnder (base.child s) ↔ LeadsDown s := by
  rw [child_of_relative h]
  constructor
  · rintro ⟨parts, hne, hup, heq⟩
    obtain rfl := below_injective heq
    exact ⟨h, hne, hup⟩
  · rintro ⟨-, hne, hup⟩
    exact ⟨_, hne, hup, rfl⟩

end Path

namespace Path

theorem isUnder_of_parent {base source : Path} (h : base.IsUnder source) {parts : List Text}
    (hne : parts ≠ []) (hup : Tree.parentName ∉ parts) :
    base.IsUnder (source.parent.below parts) := by
  obtain ⟨more, hmore, hmoreUp, rfl⟩ := h
  have hparent : (base.below more).parent = base.below more.dropLast := by
    unfold parent below
    rw [List.dropLast_append_of_ne_nil hmore]
  refine ⟨more.dropLast ++ parts, by simp [hne], ?_, ?_⟩
  · rw [List.mem_append, not_or]
    exact ⟨fun hmem => hmoreUp (List.dropLast_subset _ hmem), hup⟩
  · rw [hparent, below_below]

/-- Bytecode is left in a folder of its own next to the source. -/
theorem exists_cacheBeside_eq (tag : Text) (source : Path) :
    ∃ name, Runtime.cacheBeside tag source = source.parent.below ["__pycache__".toList, name] ∧
      Tree.parentName ∉ ["__pycache__".toList, name] := by
  obtain ⟨stem, hcache⟩ : ∃ stem : Text, Runtime.cacheBeside tag source =
      source.parent.below ["__pycache__".toList, stem ++ "." ++ tag ++ ".pyc"] := ⟨_, rfl⟩
  refine ⟨_, hcache, fun hmem => ?_⟩
  rcases List.mem_cons.mp hmem with heq | hmem
  · cases heq
  · have hlength := congrArg List.length (List.mem_singleton.mp hmem)
    simp [Tree.parentName] at hlength
    omega

/-- What is left beside a source that is below a base is below the base itself. -/
theorem isUnder_cacheBeside {base source : Path} (h : base.IsUnder source) (tag : Text) :
    base.IsUnder (Runtime.cacheBeside tag source) := by
  obtain ⟨name, hcache, hup⟩ := exists_cacheBeside_eq tag source
  rw [hcache]
  exact isUnder_of_parent h (List.cons_ne_nil _ _) hup

theorem isUnder_absolute {base p : Path} (h : base.IsUnder p) (files : SiteTree) :
    (files.absolute base).IsUnder (files.absolute p) := by
  obtain ⟨parts, hne, hup, rfl⟩ := h
  refine ⟨parts, hne, hup, ?_⟩
  have hanchor : (base.below parts).isAbsolute = base.isAbsolute := rfl
  unfold Tree.absolute
  rw [hanchor]
  split
  · rfl
  · simp [below]

end Path

/-- Bytecode is kept beside its source, or nowhere. -/
def Runtime.KeepsBeside (r : Runtime) : Prop :=
  ∀ source cache, r.cache source = some cache → ∃ tag, cache = Runtime.cacheBeside tag source

/-- Looking a component up touches the bases, the markup and the producer path of each base, and
where a producer is loaded its path from the root and the bytecode of its source. Those are below
their bases if the identifier with either suffix leads down, and a relative candidate is below its
base only then. -/
theorem Folders.resolve_touches_candidates (f : Folders) (files : SiteTree) (identifier : Text) :
    (∀ P, (∀ base ∈ f.paths, P base ∧ ∀ p, f.Touched files base identifier p → P p) →
      f.TouchesOnly files identifier P) ∧
    (∀ P, f.TouchesOnly files identifier P → ∀ base ∈ f.paths,
      P base ∧ P (f.markupPath base identifier) ∧ P (f.producerPath base identifier)) ∧
    ((∀ suffix, suffix = f.markupSuffix ∨ suffix = f.producerSuffix →
        Path.LeadsDown (normalize identifier ++ suffix)) → f.runtime.KeepsBeside →
      f.TouchesOnly files identifier fun p => ∃ base ∈ f.paths,
        p = base ∨ base.IsUnder p ∨ (files.absolute base).IsUnder p) ∧
    ∀ (base : Path) (suffix : Text),
      (Path.ofText (normalize identifier ++ suffix)).isAbsolute = false →
      (base.IsUnder (base.child (normalize identifier ++ suffix)) ↔
        Path.LeadsDown (normalize identifier ++ suffix)) := by
  refine ⟨fun P => touchesOnly_of_touched, fun P h => h.candidates,
    fun hdown hkeeps => touchesOnly_of_touched fun base hbase => ?_,
    fun base suffix hrelative => Path.isUnder_child_iff hrelative base⟩
  have hunder (suffix : Text) (hsuffix : suffix = f.markupSuffix ∨ suffix = f.producerSuffix) :
      base.IsUnder (base.child (normalize identifier ++ suffix)) :=
    (Path.isUnder_child_iff (hdown suffix hsuffix).relative base).mpr (hdown suffix hsuffix)
  have hloaded := Path.isUnder_absolute (hunder _ (.inr rfl)) files
  refine ⟨⟨base, hbase, .inl rfl⟩, fun p hp => ⟨base, hbase, .inr ?_⟩⟩
  cases hp with
  | markup => exact .inl (hunder _ (.inl rfl))
  | producer => exact .inl (hunder _ (.inr rfl))
  | loaded => exact .inr hloaded
  | bytecode _ hcache =>
      obtain ⟨tag, rfl⟩ := hkeeps _ _ hcache
      exact .inr (Path.isUnder_cacheBeside hloaded tag)

/-- A runtime that keeps bytecode beside its sources. -/
def keepingRuntime : Runtime :=
  { Runtime.plain with cache := fun source => some (Runtime.cacheBeside "cpython-311" source) }

def siteFolders : Folders := ⟨[Path.ofText "site"], .utf8, ".html", ".py", keepingRuntime⟩

def siteFiles : SiteTree :=
  ⟨.folder [("secret.html", .file (.bytes [83])),
    ("site", .folder [("Card.html", .file (.bytes [99]))])], []⟩

theorem resolve_touches_candidates_logo :
    (∀ suffix, suffix = siteFolders.markupSuffix ∨ suffix = siteFolders.producerSuffix →
      Path.LeadsDown (normalize "main\\..Logo" ++ suffix)) ∧
    siteFolders.runtime.KeepsBeside ∧
    siteFolders.TouchesOnly siteFiles "main\\..Logo" fun p => ∃ base ∈ siteFolders.paths,
      p = base ∨ base.IsUnder p ∨ (siteFiles.absolute base).IsUnder p := by
  have hdown : ∀ suffix, suffix = siteFolders.markupSuffix ∨ suffix = siteFolders.producerSuffix →
      Path.LeadsDown (normalize "main\\..Logo" ++ suffix) := by
    rintro suffix (rfl | rfl) <;> exact ⟨by decide, by decide, by decide⟩
  have hkeeps : siteFolders.runtime.KeepsBeside := by
    rintro source cache ⟨⟩
    exact ⟨_, rfl⟩
  have htouches := (siteFolders.resolve_touches_candidates siteFiles "main\\..Logo").2.2.1
  exact ⟨hdown, hkeeps, htouches hdown hkeeps⟩

/-- An identifier that leads up finds a file beside the only base. -/
theorem resolve_leads_out :
    ((siteFolders.resolve (fun _ _ => throw .nestedTooDeep) "../secret").exec siteFiles .start).1 =
        .ok ⟨"../secret", some "S", .none, some "site/../secret.html"⟩ ∧
      ¬siteFolders.TouchesOnly siteFiles "../secret" fun p => ∃ base ∈ siteFolders.paths,
        p = base ∨ base.IsUnder p := by
  refine ⟨rfl, fun htouches => ?_⟩
  obtain ⟨-, ⟨base, hbase, hunder⟩, -⟩ :=
    htouches.candidates (Path.ofText "site") List.mem_cons_self
  obtain rfl := List.mem_singleton.mp hbase
  rcases hunder with heq | hunder
  · exact absurd heq (by decide)
  · have hdown := (Path.isUnder_child_iff (by decide) _).mp hunder
    exact hdown.never_up (by decide)

end StaticSite
