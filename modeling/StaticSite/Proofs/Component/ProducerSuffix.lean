import StaticSite.Proofs.Component.Abreast
import StaticSite.Proofs.Component.SearchOrder
import StaticSite.Proofs.Files.Renamed

/-!
# The suffix of producer files

Files are looked for and listed under the suffix that folders are given for producers, but how a
file is loaded, and whether it is, is for the end of its name to say. So a look-up with a suffix of
which no other loader than that of sources knows a file goes as with the suffix of sources, in the
tree in which the producer files that are sources by their names carry that suffix, and the others
are missing. -/

namespace StaticSite

open Engine

namespace Folders

/-- The same folders, searched for producers with the suffix of sources. -/
def asModules (f : Folders) : Folders := { f with producerSuffix := Loader.source.suffix }

/-- The second tree has the folders and markup files of the first, and shows them as the first does.
Its files with the suffix of sources are the producer files of the first with a `kept` name, each
under its new name. -/
structure Renames (f : Folders) (kept : Text → Prop) (files others : SiteTree) : Prop
    extends files.SameFolders others where
  markup : ∀ place stem content,
    others.root.get? (place ++ [stem ++ f.markupSuffix]) = some (.file content) ↔
      files.root.get? (place ++ [stem ++ f.markupSuffix]) = some (.file content)
  producers : ∀ place stem content,
    others.root.get? (place ++ [stem ++ Loader.source.suffix]) = some (.file content) ↔
      kept (stem ++ f.producerSuffix) ∧
        files.root.get? (place ++ [stem ++ f.producerSuffix]) = some (.file content)
  entering : others.guard.entering = files.guard.entering
  reading : ∀ place stem, others.guard.reading (place ++ [stem ++ f.markupSuffix]) =
    files.guard.reading (place ++ [stem ++ f.markupSuffix])

/-- The name that a file gets when `kept` producer files are given the suffix of sources. Other
producer files and other files with that suffix get none. -/
def asModuleName (f : Folders) (kept : Text → Prop) [DecidablePred kept] (name : Text) :
    Option Text :=
  if Text.endsWith f.producerSuffix name then
    if kept name then
      some (name.take (name.length - f.producerSuffix.length) ++ Loader.source.suffix)
    else none
  else if Text.endsWith Loader.source.suffix name then none
  else some name

section Renaming

variable {f : Folders} {kept : Text → Prop} [DecidablePred kept] {name stem : Text}

theorem asModuleName_append (stem : Text) :
    f.asModuleName kept (stem ++ f.producerSuffix) =
      if kept (stem ++ f.producerSuffix) then some (stem ++ Loader.source.suffix) else none := by
  have hstem : (stem ++ f.producerSuffix).take
      ((stem ++ f.producerSuffix).length - f.producerSuffix.length) = stem := by simp
  rw [asModuleName, if_pos (Text.endsWith_append stem f.producerSuffix), hstem]

theorem asModuleName_of_not_endsWith (h : ¬Text.endsWith f.producerSuffix name)
    (h' : ¬Text.endsWith Loader.source.suffix name) : f.asModuleName kept name = some name := by
  rw [asModuleName, if_neg h, if_neg h']

theorem asModuleName_eq_some_cases {new : Text} (h : f.asModuleName kept name = some new) :
    (∃ stem, name = stem ++ f.producerSuffix ∧ kept name ∧ new = stem ++ Loader.source.suffix) ∨
      ¬Text.endsWith Loader.source.suffix name ∧ new = name := by
  by_cases hproducer : Text.endsWith f.producerSuffix name
  · obtain ⟨stem, rfl⟩ := Text.endsWith_iff.mp hproducer
    rw [asModuleName_append] at h
    split at h
    · rename_i hkept
      exact .inl ⟨stem, rfl, hkept, (Option.some.inj h).symm⟩
    · cases h
  · rw [asModuleName, if_neg hproducer] at h
    split at h
    · cases h
    · rename_i hmodule
      exact .inr ⟨hmodule, (Option.some.inj h).symm⟩

/-- Neither of two suffixes ends in the other. -/
def Apart (s t : Text) : Prop := ¬Text.endsWith s t ∧ ¬Text.endsWith t s

instance (s t : Text) : Decidable (Apart s t) := inferInstanceAs (Decidable (_ ∧ _))

theorem Apart.not_endsWith {s t : Text} (h : Apart s t) (hname : Text.endsWith s name) :
    ¬Text.endsWith t name := by
  intro hother
  rcases Text.endsWith_or_endsWith hname hother with hends | hends
  · exact h.1 hends
  · exact h.2 hends

variable (f kept) in
/-- In any tree the files can be renamed, unless two things of one folder get the same name. -/
theorem renames_renameFiles (files : SiteTree) (hapart : Apart f.markupSuffix f.producerSuffix)
    (hapart' : Apart f.markupSuffix Loader.source.suffix) (h : files.root.Distinct)
    (h' : (files.renameFiles (f.asModuleName kept)).root.Distinct) :
    f.Renames kept files (files.renameFiles (f.asModuleName kept)) := by
  have hfile (place : List Text) (name : Text) (content : Content) :
      (files.renameFiles (f.asModuleName kept)).root.get? (place ++ [name]) = some (.file content) ↔
        ∃ old, f.asModuleName kept old = some name ∧
          files.root.get? (place ++ [old]) = some (.file content) :=
    Node.get?_renameFiles_file_iff h h'
  refine ⟨Tree.sameFolders_renameFiles h h', fun place stem content => ?_,
    fun place stem content => ?_, rfl, fun _ _ => rfl⟩
  · have hends := Text.endsWith_append stem f.markupSuffix
    rw [hfile]
    constructor
    · rintro ⟨old, hold, hcontent⟩
      rcases asModuleName_eq_some_cases hold with ⟨other, -, -, hnew⟩ | ⟨-, rfl⟩
      · rw [hnew] at hends
        exact absurd (Text.endsWith_append other Loader.source.suffix) (hapart'.not_endsWith hends)
      · exact hcontent
    · intro hcontent
      exact ⟨_, asModuleName_of_not_endsWith (hapart.not_endsWith hends)
        (hapart'.not_endsWith hends), hcontent⟩
  · rw [hfile]
    constructor
    · rintro ⟨old, hold, hcontent⟩
      rcases asModuleName_eq_some_cases hold with ⟨other, rfl, hkept, hnew⟩ | ⟨hmodule, rfl⟩
      · rw [List.append_cancel_right hnew]
        exact ⟨hkept, hcontent⟩
      · exact absurd (Text.endsWith_append stem Loader.source.suffix) hmodule
    · rintro ⟨hkept, hcontent⟩
      exact ⟨_, (asModuleName_append stem).trans (if_pos hkept), hcontent⟩

end Renaming

/-- Places of one file before and after it was given the suffix of sources. -/
def IsMoved (suffix : Text) (place other : Option Text) : Prop :=
  place = other ∨
    ∃ lead, place = some (lead ++ suffix) ∧ other = some (lead ++ Loader.source.suffix)

/-- The same identifier, found in files that were given the suffix of sources. -/
def moved (suffix identifier : Text) : Likeness :=
  ⟨identifier, identifier, IsMoved suffix, fun _ _ => True⟩

section Probes

variable {files others : SiteTree} {p q : Path}

theorem refuses_of_sameFolders (h : files.SameFolders others)
    (hentering : others.guard.entering = files.guard.entering) {cause : FileCause}
    (hrefuses : Refuses files p cause) : Refuses others p cause :=
  ⟨hrefuses.no_null, h.look_error hentering hrefuses.refused hrefuses.not_missing
    hrefuses.not_notFolder, hrefuses.not_missing, hrefuses.not_notFolder⟩

theorem probe_congr (h : files.SameFolders others)
    (hentering : others.guard.entering = files.guard.entering)
    (hfile : ∀ content, others.find p = .ok (.file content) ↔ files.find p = .ok (.file content)) :
    probe others p = probe files p := by
  cases hprobe : probe files p with
  | error fault =>
      obtain ⟨cause, hrefuses, rfl⟩ := probe_eq_error_iff.mp hprobe
      exact probe_eq_error_iff.mpr ⟨cause, refuses_of_sameFolders h hentering hrefuses, rfl⟩
  | ok found =>
      have hadmits : Admits others p := by
        intro cause hrefuses
        have hback := refuses_of_sameFolders h.symm hentering.symm hrefuses
        cases (probe_eq_error_iff.mpr ⟨cause, hback, rfl⟩).symm.trans hprobe
      obtain ⟨found', hprobe'⟩ := exists_probe hadmits
      have hlook : ∀ content, others.look p = .ok (.file content) ↔
          files.look p = .ok (.file content) := by
        refine fun content => ⟨fun hlook => ?_, fun hlook => ?_⟩
        · exact h.symm.look_file hentering.symm hlook
            ((hfile content).mp (Tree.find_of_look hlook))
        · exact h.look_file hentering hlook ((hfile content).mpr (Tree.find_of_look hlook))
      have hfound : ∀ content, found' = some content ↔ found = some content := by
        intro content
        have hfiles := @probe_eq_some_iff files p content
        have hothers := @probe_eq_some_iff others p content
        rw [hprobe] at hfiles
        rw [hprobe', hlook, ← hfiles] at hothers
        simpa using hothers
      rw [hprobe', Option.ext hfound]

/-- What is read of a file that lies at one place in both trees is the same, if the machine lets it
be read in both or in neither. -/
theorem contained_congr {content : Content} {place : List Text}
    (hlook : files.look p = .ok (.file content)) (hlook' : others.look p = .ok (.file content))
    (hlocate : files.locate p = .ok place) (hlocate' : others.locate p = .ok place)
    (hreading : others.guard.reading place = files.guard.reading place) :
    contained others p = contained files p := by
  have hcheck : others.checkReading p = files.checkReading p := by
    rw [Tree.checkReading, Tree.checkReading, hlocate, hlocate']
    simp only [Except.toOption, Option.bind_some, hreading]
  unfold contained opened Tree.read
  rw [hlook, hlook']
  simp only [bind, Except.bind, hcheck]

end Probes

section Renamed

variable {f : Folders} {kept : Text → Prop} {files others : SiteTree} {base : Path}
  {identifier : Text} {reenter reenter' : Reentry}

theorem Renames.markup_same (h : f.Renames kept files others)
    (hmarkup : Path.IsEnding f.markupSuffix) (base : Path) (identifier : Text) :
    probe others (f.markupPath base identifier) = probe files (f.markupPath base identifier) ∧
      ∀ content, probe files (f.markupPath base identifier) = .ok (some content) →
        textOf others f.encoding (f.markupPath base identifier) =
          textOf files f.encoding (f.markupPath base identifier) := by
  obtain ⟨folder, stem, hbelow⟩ := base.exists_child_append (normalize identifier)
  rw [markupPath, hbelow _ hmarkup]
  have hfile (content : Content) :
      others.find (folder.below [stem ++ f.markupSuffix]) = .ok (.file content) ↔
        files.find (folder.below [stem ++ f.markupSuffix]) = .ok (.file content) := by
    refine ⟨fun hfind => ?_, fun hfind => ?_⟩
    · obtain ⟨-, -, -, hfile⟩ := Tree.exists_folder_of_find_below hfind
      exact h.symm.find_below_same hfind ((h.markup _ _ _).mp hfile)
    · obtain ⟨-, -, -, hfile⟩ := Tree.exists_folder_of_find_below hfind
      exact h.find_below_same hfind ((h.markup _ _ _).mpr hfile)
  have hprobe := probe_congr h.toSameFolders h.entering hfile
  refine ⟨hprobe, fun content hfound => ?_⟩
  obtain ⟨-, hlook⟩ := look_of_probe hfound
  obtain ⟨-, hlook'⟩ := look_of_probe (hprobe.trans hfound)
  have hfind := Tree.find_of_look hlook
  obtain ⟨-, hup, -⟩ := Tree.exists_folder_of_find_below hfind
  obtain ⟨hlocate, -⟩ := Tree.find_eq_ok_iff.mp hfind
  obtain ⟨hlocate', -⟩ := Tree.find_eq_ok_iff.mp (Tree.find_of_look hlook')
  rw [Tree.spot_below _ _ (by simpa using Ne.symm hup)] at hlocate hlocate'
  rw [Tree.spot_eq_of_current h.current] at hlocate'
  unfold textOf
  rw [contained_congr hlook hlook' hlocate hlocate' (h.reading _ _)]

theorem ne_parentName_of_endsWith {name : Text} (h : Text.endsWith Loader.source.suffix name) :
    name ≠ Tree.parentName := by
  rintro rfl
  cases h

section Producers

variable (h : f.Renames kept files others)
  (hkept : ∀ stem, kept (stem ++ f.producerSuffix) ↔
    Text.endsWith Loader.source.suffix (stem ++ f.producerSuffix))

include h hkept

theorem Renames.find_producer_iff {folder : Path} {stem : Text}
    (hshort : files.find (folder.below [stem ++ f.producerSuffix]) ≠ .error .nameTooLong)
    (hshort' : others.find (folder.below [stem ++ Loader.source.suffix]) ≠ .error .nameTooLong)
    {content : Content} :
    others.find (folder.below [stem ++ Loader.source.suffix]) = .ok (.file content) ↔
      Text.endsWith Loader.source.suffix (stem ++ f.producerSuffix) ∧
        files.find (folder.below [stem ++ f.producerSuffix]) = .ok (.file content) := by
  constructor
  · intro hfind
    obtain ⟨-, -, -, hfile⟩ := Tree.exists_folder_of_find_below hfind
    obtain ⟨hname, hfile⟩ := (h.producers _ _ _).mp hfile
    rw [hkept] at hname
    have hup := ne_parentName_of_endsWith hname
    exact ⟨hname, (h.symm.find_below hfind hup hfile).resolve_right hshort⟩
  · rintro ⟨hname, hfind⟩
    obtain ⟨-, -, -, hfile⟩ := Tree.exists_folder_of_find_below hfind
    have hrenamed := (h.producers _ _ _).mpr ⟨(hkept stem).mpr hname, hfile⟩
    have hup := ne_parentName_of_endsWith (Text.endsWith_append stem Loader.source.suffix)
    exact (h.find_below hfind hup hrenamed).resolve_right hshort'

/-- What is found for a producer in both trees. Where its name is that of a source it is the same,
under another name; any other file is found in the first tree only. -/
theorem Renames.exists_probes (hproducer : Path.IsEnding f.producerSuffix)
    (hnull : '\x00' ∉ f.producerSuffix)
    (hadmits : Admits files (f.producerPath base identifier))
    (hadmits' : Admits others (f.asModules.producerPath base identifier)) :
    ∃ found found', probe files (f.producerPath base identifier) = .ok found ∧
      probe others (f.asModules.producerPath base identifier) = .ok found' ∧
      IsMoved f.producerSuffix (some (f.producerPath base identifier).text)
        (some (f.asModules.producerPath base identifier).text) ∧
      ∀ content, found' = some content ↔
        Text.endsWith Loader.source.suffix (f.producerPath base identifier).text ∧
          found = some content := by
  obtain ⟨found, hfound⟩ := exists_probe hadmits
  obtain ⟨found', hfound'⟩ := exists_probe hadmits'
  refine ⟨found, found', hfound, hfound', ?_⟩
  obtain ⟨folder, stem, hbelow⟩ := base.exists_child_append (normalize identifier)
  have hmodule : Path.IsEnding Loader.source.suffix := by decide
  have hpath : f.producerPath base identifier = folder.below [stem ++ f.producerSuffix] :=
    hbelow _ hproducer
  have hpath' : f.asModules.producerPath base identifier =
      folder.below [stem ++ Loader.source.suffix] :=
    hbelow _ hmodule
  rw [hpath] at hfound hadmits ⊢
  rw [hpath'] at hfound' hadmits' ⊢
  obtain ⟨lead, -, htext⟩ := Path.exists_text_below_name folder
  have hnulls : '\x00' ∈ (folder.below [stem ++ Loader.source.suffix]).text ↔
      '\x00' ∈ (folder.below [stem ++ f.producerSuffix]).text := by
    have hmodule : '\x00' ∉ Loader.source.suffix := by decide
    simp only [htext, List.mem_append, hnull, hmodule]
  refine ⟨.inr ⟨lead ++ stem, by simp [htext], by simp [htext]⟩, fun content => ?_⟩
  have hsome := @probe_eq_some_iff files (folder.below [stem ++ f.producerSuffix]) content
  have hsome' := @probe_eq_some_iff others (folder.below [stem ++ Loader.source.suffix]) content
  rw [hfound, Except.ok.injEq] at hsome
  rw [hfound', Except.ok.injEq] at hsome'
  rw [hsome, hsome', hnulls, Path.endsWith_below_name hmodule.2.2]
  by_cases hnul : '\x00' ∈ (folder.below [stem ++ f.producerSuffix]).text
  · simp [hnul]
  · have hlook := look_eq_find hadmits hnul
    have hlook' := look_eq_find hadmits' (mt hnulls.mp hnul)
    have hshort {files : SiteTree} {p : Path} (h : Admits files p) (hnull : '\x00' ∉ p.text)
        (hlook : files.look p = files.find p) : files.find p ≠ .error .nameTooLong :=
      fun hlong => h _ ⟨hnull, hlook.trans hlong, by decide, by decide⟩
    rw [hlook, hlook', h.find_producer_iff hkept (hshort hadmits hnul hlook)
      (hshort hadmits' (mt hnulls.mp hnul) hlook')]
    simp only [hnul, not_false_eq_true, true_and]

end Producers

/-! ## Look-ups in both trees -/

variable {alike : KeptFiles → KeptFiles → Prop} {faults : Fault → Fault → Prop}

theorem abreast_readMarkup {p : Path} (hprobe : probe others p = probe files p)
    (htext : ∀ content, probe files p = .ok (some content) →
      textOf others f.encoding p = textOf files f.encoding p)
    (hsame : ∀ fault, faults fault fault) :
    Abreast files others alike faults Eq (f.readMarkup p) (f.readMarkup p) := by
  intro s t hst
  cases hfound : probe files p with
  | error fault =>
      obtain ⟨cause, hrefuses, rfl⟩ := probe_eq_error_iff.mp hfound
      obtain ⟨cause', hrefuses', heq⟩ := probe_eq_error_iff.mp (hprobe.trans hfound)
      cases heq
      have hlooks (tree : SiteTree) (h : Refuses tree p cause) :
          Looks tree (f.readMarkup p) (.error (.file cause p)) := by
        intro s
        have hfile : Looks tree (Access.direct.isFile p) _ := looks_isFile
        unfold readMarkup readMarkupVia
        rw [exec_bind, hfile s, seen_error_iff.mpr ⟨cause, h, rfl⟩]
        rfl
      rw [hlooks files hrefuses s, hlooks others hrefuses' t]
      exact ⟨.error (hsame _), hst⟩
  | ok found =>
      cases found with
      | none =>
          rw [exec_readMarkup_of_unread (.absent hfound),
            exec_readMarkup_of_unread (.absent (hprobe.trans hfound))]
          exact ⟨.ok rfl, hst⟩
      | some content =>
          rw [exec_readMarkup hfound, exec_readMarkup (hprobe.trans hfound), htext content hfound]
          cases textOf files f.encoding p with
          | ok markup => exact ⟨.ok rfl, hst⟩
          | error fault =>
              simp only
              split
              · exact ⟨.ok rfl, hst.context, congrArg (· ++ _) hst.log, hst.counters, hst.work,
                  hst.bytecode⟩
              · exact ⟨.error (hsame fault), hst⟩

/-- What is asked of the producer file of a base, besides that it can be looked at under both names:
no other loader than that of sources knows it by its name; where it is there it can be read by its
path from the root, under either name; and bytecode counts for it under both names alike. -/
structure LoadsAlike (f : Folders) (files others : SiteTree) (identifier : Text) (base : Path) :
    Prop where
  admits : Admits files (f.producerPath base identifier)
  admits' : Admits others (f.asModules.producerPath base identifier)
  loader : ∀ loader, Loader.ofPath? (f.producerPath base identifier) = some loader →
    loader = .source
  reads : Loader.ofPath? (f.producerPath base identifier) = some .source → ∀ content,
    probe files (f.producerPath base identifier) = .ok (some content) →
      contained files (files.absolute (f.producerPath base identifier)) = .ok content
  reads' : ∀ content,
    probe others (f.asModules.producerPath base identifier) = .ok (some content) →
      contained others (others.absolute (f.asModules.producerPath base identifier)) = .ok content
  reuses : Loader.ofPath? (f.producerPath base identifier) = some .source →
    Loading.reused others f.runtime
        (others.absolute (f.asModules.producerPath base identifier)) =
      Loading.reused files f.runtime (files.absolute (f.producerPath base identifier))

/-- Sources that hold the same come to the same module, but may leave different bytecode. -/
theorem like_loaded {r : Runtime} {p q : Path} {content : Content}
    (hp : Loader.ofPath? p = some .source) (hq : Loader.ofPath? q = some .source)
    (hreuses : Loading.reused others r (others.absolute q) =
      Loading.reused files r (files.absolute p))
    (hread : contained files (files.absolute p) = .ok content)
    (hread' : contained others (others.absolute q) = .ok content) :
    (Loading.loaded files r p).Like (fun _ _ => True) (Loading.loaded others r q) := by
  unfold Loading.loaded
  rw [hp, hq]
  simp only [hreuses]
  cases Loading.reused files r (files.absolute p) with
  | some result =>
      cases result with
      | ok module => exact .ready module fun _ _ _ => trivial
      | error complaint => exact .broken _
  | none =>
      unfold Loading.compiled
      rw [hread, hread']
      simp only
      cases r.moduleOf content with
      | error complaint => exact .broken _
      | ok module => exact .ready module fun _ _ _ => trivial

/-- A producer without the name of a source is not loaded, as no other loader knows it. -/
theorem LoadsAlike.unknown (h : f.LoadsAlike files others identifier base)
    (hends : ¬Text.endsWith Loader.source.suffix (f.producerPath base identifier).text) :
    Loading.loaded files f.runtime (f.producerPath base identifier) = .unknown := by
  unfold Loading.loaded
  cases hloader : Loader.ofPath? (f.producerPath base identifier) with
  | none => rfl
  | some loader =>
      obtain rfl := h.loader loader hloader
      exact absurd (Loader.ofPath?_eq_some_iff.mp hloader) hends

section Look

variable (h : f.Renames kept files others)
  (hmarkup : Path.IsEnding f.markupSuffix) (hproducer : Path.IsEnding f.producerSuffix)
  (hnull : '\x00' ∉ f.producerSuffix)
  (hkept : ∀ stem, kept (stem ++ f.producerSuffix) ↔
    Text.endsWith Loader.source.suffix (stem ++ f.producerSuffix))
  (hreenter : ∀ html page,
    Abreast files others (fun _ _ => True) Eq Eq (reenter html page) (reenter' html page))

include h hmarkup hproducer hnull hkept hreenter

theorem Renames.abreast_resolveAt (hloads : f.LoadsAlike files others identifier base) :
    Abreast files others (fun _ _ => True) (Fault.Like (moved f.producerSuffix identifier))
      (Option.Rel (Source.Like (moved f.producerSuffix identifier)))
      (f.resolveAt reenter identifier base) (f.asModules.resolveAt reenter' identifier base) := by
  obtain ⟨found, found', hfound, hfound', hmoved, hsame⟩ :=
    h.exists_probes hkept hproducer hnull hloads.admits hloads.admits'
  obtain ⟨hprobe, htext⟩ := h.markup_same hmarkup base identifier
  have hread : Abreast files others (fun _ _ => True) _ Eq
      (f.readMarkup (f.markupPath base identifier)) (f.readMarkup (f.markupPath base identifier)) :=
    abreast_readMarkup hprobe htext (Fault.Like.same (k := moved f.producerSuffix identifier))
  unfold resolveAt resolveAtVia
  refine hread.bind ?_
  rintro markup _ rfl
  cases markup with
  | some markup =>
      exact .pure (.some (.named (k := moved f.producerSuffix identifier) _ _ (.inl rfl)))
  | none =>
      have hfile : Looks files (Access.direct.isFile (f.producerPath base identifier))
          (.ok found.isSome) := looks_isFile_of_probe hfound
      have hfile' : Looks others
          (Access.direct.isFile (f.asModules.producerPath base identifier)) (.ok found'.isSome) :=
        looks_isFile_of_probe hfound'
      simp only
      cases found' with
      | some content =>
          obtain ⟨hends, rfl⟩ := (hsame content).mp rfl
          have hsource := (@Loader.ofPath?_eq_some_iff .source _).mpr hends
          have hload := abreast_loadProducer (k := moved f.producerSuffix identifier) (f := f)
            (g := f.asModules) hreenter rfl
            (like_loaded hsource (ofPath?_producerPath (f := f.asModules) rfl base identifier)
              (hloads.reuses hsource) (hloads.reads hsource content hfound)
              (hloads.reads' content hfound')) hmoved
          refine (Abreast.of_looks hfile hfile' (.ok (Eq.refl true))).bind ?_
          rintro there _ rfl
          cases there with
          | false => exact .pure .none
          | true =>
              refine hload.bind ?_
              rintro value _ rfl
              refine .pure ?_
              split
              · exact .none
              · exact .some (.named (k := moved f.producerSuffix identifier) _ _ hmoved)
      | none =>
          intro s t hst
          rw [exec_bind, exec_bind, hfile s, hfile' t]
          cases found with
          | none => exact ⟨.ok .none, hst⟩
          | some content =>
              have hunknown := hloads.unknown fun hends => nomatch (hsame content).mpr ⟨hends, rfl⟩
              have hload : Looks files (Loading.ofFile .direct f.runtime
                  (f.producerPath base identifier)) (.ok .unknown) :=
                hunknown ▸ Loading.looks_ofFile _
              unfold loadProducerVia
              simp only [Option.isSome_some, if_true, exec_bind, hload s]
              exact ⟨.ok .none, hst⟩

end Look

end Renamed

theorem eq_of_like_moved {suffix identifier : Text} {source other : Source}
    (h : source.Like (moved suffix identifier) other) :
    other = { source with origin := other.origin } ∧
      IsMoved suffix source.origin other.origin := by
  cases h with
  | same => exact ⟨rfl, .inl rfl⟩
  | named markup producer h => exact ⟨rfl, h⟩

/-- Looking a component up with a suffix of producers of which no other loader than that of sources
knows a file goes as looking it up with the suffix of sources in the tree in which the producer
files are renamed that are sources by their names, and the others are taken out. Both find sources
that are equal up to the new name of the file, or both fail with faults of one kind and for the same
cause; and the same code ran and the same was logged. -/
theorem resolve_renamed {f : Folders} {kept : Text → Prop} {files others : SiteTree}
    (h : f.Renames kept files others) (hmarkup : Path.IsEnding f.markupSuffix)
    (hproducer : Path.IsEnding f.producerSuffix) (hnull : '\x00' ∉ f.producerSuffix)
    (hkept : ∀ stem, kept (stem ++ f.producerSuffix) ↔
      Text.endsWith Loader.source.suffix (stem ++ f.producerSuffix))
    {reenter reenter' : Reentry} (hreenter : ∀ html page,
      Abreast files others (fun _ _ => True) Eq Eq (reenter html page) (reenter' html page))
    {identifier : Text} (hloads : ∀ base ∈ f.paths, f.LoadsAlike files others identifier base)
    (hlist : ∃ ids, Looks files f.list (.ok ids))
    (hlist' : ∃ ids, Looks others f.asModules.list (.ok ids)) (s : Session) :
    let first := (f.resolve reenter identifier).exec files s
    let second := (f.asModules.resolve reenter' identifier).exec others s
    ((∃ source other, first.1 = .ok source ∧ second.1 = .ok other ∧
        other = { source with origin := other.origin } ∧
        IsMoved f.producerSuffix source.origin other.origin) ∨
      ∃ fault other, first.1 = .error fault ∧ second.1 = .error other ∧
        fault.Like (moved f.producerSuffix identifier) other ∧ fault.kind = other.kind) ∧
      first.2.SameWork second.2 fun _ _ => True := by
  intro first second
  obtain ⟨ids, hids⟩ := hlist
  obtain ⟨ids', hids'⟩ := hlist'
  have hbases (base : Path) (hbase : base ∈ f.paths) :=
    h.abreast_resolveAt hmarkup hproducer hnull hkept hreenter (hloads base hbase)
  have hlists : Abreast files others (fun _ _ => True)
      (Fault.Like (moved f.producerSuffix identifier)) (fun _ _ => True) f.list
        f.asModules.list :=
    .of_looks hids hids' (.ok trivial)
  have hpaths : f.asModules.paths = f.paths := rfl
  have hresolve := abreast_resolveFrom (k := moved f.producerSuffix identifier) hpaths hlists hbases
    .none
  obtain ⟨houtcomes, hsession⟩ := hresolve s s ⟨rfl, rfl, rfl, rfl, trivial⟩
  refine ⟨?_, hsession⟩
  rcases houtcomes.ok_or_error with ⟨source, other, hfirst, hsecond, hlike⟩ |
    ⟨fault, other, hfirst, hsecond, hlike⟩
  · exact .inl ⟨source, other, hfirst, hsecond, eq_of_like_moved hlike⟩
  · exact .inr ⟨fault, other, hfirst, hsecond, hlike, hlike.kind.1⟩

end Folders

/-! ## Suffixes that are no suffixes of sources -/

def clockContent : Content := .code (cardModule (.done [("default", .text "x")]))

/-- A folder with one file, which exports a text. -/
def clockFiles (name : Text) : SiteTree :=
  ⟨.folder [("a", .folder [(name, .file clockContent)])], []⟩

def clockFolders (suffix : Text) : Folders :=
  { Folders.ofPaths [Path.ofText "a"] with producerSuffix := suffix }

/-- A module with a longer suffix is found as one that has the usual suffix. -/
theorem resolve_renamed_clock :
    (clockFolders ".mod.py").Renames (fun _ => True) (clockFiles "Clock.mod.py")
        (clockFiles "Clock.py") ∧
      ∃ first second, (first.SameWork second fun _ _ => True) ∧
        ((clockFolders ".mod.py").resolve noReentry "Clock").exec (clockFiles "Clock.mod.py")
          .start = (.ok ⟨"Clock", none, .text "x", some "a/Clock.mod.py"⟩, first) ∧
        ((clockFolders ".mod.py").asModules.resolve noReentry "Clock").exec (clockFiles "Clock.py")
          .start = (.ok ⟨"Clock", none, .text "x", some "a/Clock.py"⟩, second) := by
  have hrenames : (clockFolders ".mod.py").Renames (fun _ => True) (clockFiles "Clock.mod.py")
      (clockFiles "Clock.py") :=
    (clockFolders ".mod.py").renames_renameFiles (fun _ => True) (clockFiles "Clock.mod.py")
      (by decide) (by decide) (Node.distinct_of_nodup (by decide))
      (Node.distinct_of_nodup (by decide))
  have hkept (stem : Text) : True ↔ Text.endsWith Loader.source.suffix
      (stem ++ (clockFolders ".mod.py").producerSuffix) := by
    refine iff_of_true trivial (Text.endsWith_iff.mpr ⟨stem ++ ".mod".toList, ?_⟩)
    exact (List.append_assoc stem ".mod".toList Loader.source.suffix).symm
  have hreenter (html : Text) (page : Option Text) :
      Abreast (clockFiles "Clock.mod.py") (clockFiles "Clock.py") (fun _ _ => True) Eq Eq
        (noReentry html page) (noReentry html page) := .throw rfl
  have hloads : ∀ base ∈ (clockFolders ".mod.py").paths,
      (clockFolders ".mod.py").LoadsAlike (clockFiles "Clock.mod.py") (clockFiles "Clock.py")
        "Clock"
        base := by
    intro base hbase
    rw [List.mem_singleton.mp hbase]
    refine ⟨admits_of_look rfl, admits_of_look rfl, fun loader h => ?_, fun _ content h => ?_,
      fun content h => ?_, fun _ => rfl⟩
    · exact (Option.some.inj h).symm
    · cases h
      rfl
    · cases h
      rfl
  have hlist : Looks (clockFiles "Clock.mod.py") (clockFolders ".mod.py").list
      (.ok ["Clock.mod"]) := (Folders.looks_list _).of_exec (s := .start) rfl
  have hlist' : Looks (clockFiles "Clock.py") (clockFolders ".mod.py").asModules.list
      (.ok ["Clock"]) := (Folders.looks_list _).of_exec (s := .start) rfl
  obtain ⟨-, hwork⟩ := Folders.resolve_renamed hrenames (by decide) (by decide) (by decide) hkept
    hreenter hloads ⟨_, hlist⟩ ⟨_, hlist'⟩ .start
  exact ⟨hrenames, _, _, hwork, rfl, rfl⟩

/-- A producer file with a suffix of its own is looked for, and then passed over. -/
theorem resolve_not_renamed :
    (clockFolders ".mod").Renames (fun _ => True) (clockFiles "Clock.mod") (clockFiles "Clock.py") ∧
      (((clockFolders ".mod").resolve noReentry "Clock").exec (clockFiles "Clock.mod") .start).1 =
        .error (.componentNotFound "Clock" ["a"] ["Clock"]) ∧
      (((clockFolders ".mod").asModules.resolve noReentry "Clock").exec
        (clockFiles "Clock.py") .start).1 =
          .ok ⟨"Clock", none, .text "x", some "a/Clock.py"⟩ := by
  refine ⟨?_, rfl, rfl⟩
  exact (clockFolders ".mod").renames_renameFiles (fun _ => True) (clockFiles "Clock.mod")
    (by decide) (by decide) (Node.distinct_of_nodup (by decide))
    (Node.distinct_of_nodup (by decide))

end StaticSite
