import StaticSite.Proofs.Component.Probe
import StaticSite.Proofs.Files.Matching
import StaticSite.Proofs.Text.Order

/-!
# Listing folders

Listing the components of folders only looks at files, and what it lists comes from the places that
a base shows for a suffix. It fails when a base cannot be looked at, when a suffix makes no pattern
of file names, when a base itself would be listed, or when a folder below a base cannot be listed
and that is not for want of a permission. -/

namespace StaticSite.Folders

open Engine

variable {files : SiteTree}

/-- The places below a base that a listing shows for a suffix. -/
def shown (files : SiteTree) (base : Path) (suffix : Text) : Except Fault (List (List Text)) :=
  (matching files base (Pattern.parts ('*' :: suffix))).map
    (List.filter fun place => !isHidden (base.below place))

/-- What listing the files below a base for a suffix gives. -/
def stems (files : SiteTree) (base : Path) (suffix : Text) : Except Fault (List Text) := do
  if !Pattern.isValid (Pattern.parts ('*' :: suffix)) then throw .badPattern
  let places ← shown files base suffix
  if places.contains [] then throw (.namelessPath ⟨.relative, []⟩)
  return places.map fun place => Path.slashed (Path.dropSuffix place)

theorem looks_listSuffix (base : Path) (suffix : Text) :
    Looks files (listSuffix base suffix) (stems files base suffix) := by
  intro s
  simp only [listSuffix, stems, shown]
  split
  · rfl
  · simp only [exec_bind, exec_read]
    cases matching files base (Pattern.parts ('*' :: suffix)) with
    | error fault => rfl
    | ok places =>
        simp only [Except.map, bind, Except.bind, pure, Except.pure, Engine.ofExcept]
        change exec (if (List.filter _ places).contains [] then _ else _) files s = _
        split <;> rfl

/-- What listing the files below a base gives. -/
def listed (f : Folders) (files : SiteTree) (base : Path) : Except Fault (List Text) := do
  if ← (seen files base).map fun n => (n.map Node.isFolder).getD false then
    return (← stems files base f.markupSuffix) ++ (← stems files base f.producerSuffix)
  else return []

theorem looks_list (f : Folders) :
    Looks files f.list (do return Text.sortedSet (← f.paths.mapM (f.listed files)).flatten) := by
  have hbase (base : Path) : Looks files (f.listBase base) (f.listed files base) := by
    apply looks_isFolder.bind
    intro there
    cases there with
    | false => exact .pure []
    | true =>
        apply (looks_listSuffix base f.markupSuffix).bind
        intro markups
        exact (looks_listSuffix base f.producerSuffix).bind fun producers => .pure _
  exact (Looks.mapM hbase f.paths).bind fun ids => .pure _

def IsShown (files : SiteTree) (base : Path) (suffix : Text) (place : List Text) : Prop :=
  ∃ places, shown files base suffix = .ok places ∧ place ∈ places

/-- A base is a folder and shows a place of which a listing makes the identifier. -/
def ShowsAs (f : Folders) (files : SiteTree) (base : Path) (identifier : Text) : Prop :=
  Looks files (isFolder base) (.ok true) ∧
    ∃ suffix, (suffix = f.markupSuffix ∨ suffix = f.producerSuffix) ∧
      ∃ place, IsShown files base suffix place ∧
        Path.slashed (Path.dropSuffix place) = identifier

theorem mem_stems_iff {base : Path} {suffix identifier : Text} {ids : List Text}
    (h : stems files base suffix = .ok ids) : identifier ∈ ids ↔
      ∃ place, IsShown files base suffix place ∧
        Path.slashed (Path.dropSuffix place) = identifier := by
  unfold stems at h
  split at h
  · cases h
  · obtain ⟨places, hplaces, h⟩ := bind_eq_ok_iff.mp h
    split at h
    · cases h
    · cases h
      simp [IsShown, hplaces]

theorem mem_listed_iff {f : Folders} {base : Path} {identifier : Text} {ids : List Text}
    (h : f.listed files base = .ok ids) : identifier ∈ ids ↔ f.ShowsAs files base identifier := by
  obtain ⟨there, hthere, h⟩ := bind_eq_ok_iff.mp h
  have hlooks : Looks files (isFolder base) (.ok there) := hthere ▸ looks_isFolder
  cases there with
  | false =>
      cases h
      refine iff_of_false List.not_mem_nil ?_
      rintro ⟨hfolder, -⟩
      cases (hlooks .start).symm.trans (hfolder .start)
  | true =>
      obtain ⟨markups, hmarkups, h⟩ := bind_eq_ok_iff.mp h
      obtain ⟨producers, hproducers, h⟩ := bind_eq_ok_iff.mp h
      cases h
      rw [List.mem_append, mem_stems_iff hmarkups, mem_stems_iff hproducers]
      constructor
      · rintro (hid | hid)
        · exact ⟨hlooks, _, .inl rfl, hid⟩
        · exact ⟨hlooks, _, .inr rfl, hid⟩
      · rintro ⟨-, suffix, rfl | rfl, hid⟩
        · exact .inl hid
        · exact .inr hid

theorem mem_list_iff {f : Folders} {s : Session} {identifier : Text} {ids : List Text}
    (h : (f.list.exec files s).1 = .ok ids) :
    identifier ∈ ids ↔ ∃ base ∈ f.paths, f.ShowsAs files base identifier := by
  rw [looks_list f s] at h
  obtain ⟨found, hfound, h⟩ := bind_eq_ok_iff.mp h
  cases h
  rw [Text.mem_sortedSet, List.mem_flatten]
  constructor
  · rintro ⟨below, hbelow, hid⟩
    obtain ⟨base, hbase, hlisted⟩ := (mem_mapM_iff hfound).mp hbelow
    exact ⟨base, hbase, (mem_listed_iff hlisted).mp hid⟩
  · rintro ⟨base, hbase, hshows⟩
    obtain ⟨below, hlisted⟩ := exists_mapM_ok_iff.mp ⟨found, hfound⟩ base hbase
    have hbelow := (mem_mapM_iff hfound).mpr ⟨base, hbase, hlisted⟩
    exact ⟨below, hbelow, (mem_listed_iff hlisted).mpr hshows⟩

/-- Where a listing is made, each base that is a folder shows its places. -/
theorem exists_shown {f : Folders} {s : Session} {ids : List Text}
    (h : (f.list.exec files s).1 = .ok ids) {base : Path} (hbase : base ∈ f.paths)
    (hfolder : Looks files (isFolder base) (.ok true)) {suffix : Text}
    (hsuffix : suffix = f.markupSuffix ∨ suffix = f.producerSuffix) :
    ∃ places, shown files base suffix = .ok places := by
  have hstems {suffix : Text} {ids : List Text} (hids : stems files base suffix = .ok ids) :
      ∃ places, shown files base suffix = .ok places := by
    unfold stems at hids
    split at hids
    · cases hids
    · obtain ⟨places, hplaces, -⟩ := bind_eq_ok_iff.mp hids
      exact ⟨places, hplaces⟩
  rw [looks_list f s] at h
  obtain ⟨found, hfound, -⟩ := bind_eq_ok_iff.mp h
  obtain ⟨below, hlisted⟩ := exists_mapM_ok_iff.mp ⟨found, hfound⟩ base hbase
  obtain ⟨there, hthere, hlisted⟩ := bind_eq_ok_iff.mp hlisted
  have hlooks : Looks files (isFolder base) (.ok there) := hthere ▸ looks_isFolder
  cases (hlooks .start).symm.trans (hfolder .start)
  obtain ⟨markups, hmarkups, hlisted⟩ := bind_eq_ok_iff.mp hlisted
  obtain ⟨producers, hproducers, -⟩ := bind_eq_ok_iff.mp hlisted
  rcases hsuffix with rfl | rfl
  · exact hstems hmarkups
  · exact hstems hproducers

/-! ## How a listing fails -/

/-- A folder at or below a base cannot be listed, and that is not for want of a permission. -/
structure Balks (files : SiteTree) (base : Path) (place : List Text) (cause : FileCause) :
    Prop where
  there : ∃ n, files.look base = .ok n ∧
    (place = [] ∨ ∃ entries, (place, .folder entries) ∈ n.descendants)
  refused : files.list (base.below place) = .error cause
  not_denied : cause ≠ .denied

inductive ListingFault (f : Folders) (files : SiteTree) : Fault → Prop
  | base {base : Path} (hbase : base ∈ f.paths) {cause : FileCause} (h : Refuses files base cause) :
      ListingFault f files (.file cause base)
  | pattern {suffix : Text} (hsuffix : suffix = f.markupSuffix ∨ suffix = f.producerSuffix)
      (h : Pattern.isValid (Pattern.parts ('*' :: suffix)) = false) :
      ListingFault f files .badPattern
  | nameless {base : Path} (hbase : base ∈ f.paths) {suffix : Text}
      (hsuffix : suffix = f.markupSuffix ∨ suffix = f.producerSuffix)
      (h : IsShown files base suffix []) : ListingFault f files (.namelessPath ⟨.relative, []⟩)
  | folder {base : Path} (hbase : base ∈ f.paths) {place : List Text} {cause : FileCause}
      (h : Balks files base place cause) : ListingFault f files (.file cause (base.below place))
  /-- With a slash in a suffix paths are looked at that the pattern spells out. -/
  | spelled {base : Path} (hbase : base ∈ f.paths) {suffix : Text}
      (hsuffix : suffix = f.markupSuffix ∨ suffix = f.producerSuffix) (hslash : '/' ∈ suffix)
      {place : List Text} {cause : FileCause}
      (h : files.look (base.below place) = .error cause ∨
        files.list (base.below place) = .error cause) (hcause : cause ≠ .denied) :
      ListingFault f files (.file cause (base.below place))

section Search

variable {base : Path} {fault : Fault} {place : List Text}

theorem view_look_eq_error (h : (view files base).look place = .error fault) :
    ∃ cause, files.look (base.below place) = .error cause ∧ cause ≠ .denied ∧
      fault = .file cause (base.below place) := by
  unfold view at h
  cases hlook : files.look (base.below place) with
  | ok n => simp [hlook] at h
  | error cause =>
      refine ⟨cause, rfl, ?_⟩
      cases cause <;> simp_all

theorem view_shows_eq_error (h : (view files base).shows place = .error fault) :
    ∃ cause, files.list (base.below place) = .error cause ∧ cause ≠ .denied ∧
      fault = .file cause (base.below place) := by
  unfold view at h
  cases hlist : files.list (base.below place) with
  | ok entries => simp [hlist] at h
  | error cause =>
      refine ⟨cause, rfl, ?_⟩
      cases cause <;> simp_all

theorem view_shows_iff : (view files base).shows place = .ok true ↔
    ∃ entries, files.list (base.below place) = .ok entries := by
  unfold view
  cases hlist : files.list (base.below place) with
  | ok entries => simp [hlist]
  | error cause => cases cause <;> simp [hlist]

/-- The search for a suffix fails at a folder that cannot be listed, or at a path that the suffix
spells out. -/
theorem exists_of_matching_error {suffix : Text}
    (h : matching files base (Pattern.parts ('*' :: suffix)) = .error fault) :
    ∃ place cause, fault = .file cause (base.below place) ∧
      (Balks files base place cause ∨ '/' ∈ suffix ∧ cause ≠ .denied ∧
        (files.look (base.below place) = .error cause ∨
          files.list (base.below place) = .error cause)) := by
  unfold matching at h
  cases hbase : files.look base with
  | error cause =>
      rw [hbase] at h
      cases h
  | ok n =>
      simp only [hbase] at h
      by_cases hslash : '/' ∈ suffix
      · obtain ⟨place, hfault | hfault⟩ := Pattern.exists_of_select_error h
        · obtain ⟨cause, hlook, hcause, rfl⟩ := view_look_eq_error hfault
          exact ⟨place, cause, rfl, .inr ⟨hslash, hcause, .inl hlook⟩⟩
        · obtain ⟨cause, hlist, hcause, rfl⟩ := view_shows_eq_error hfault
          exact ⟨place, cause, rfl, .inr ⟨hslash, hcause, .inr hlist⟩⟩
      · rw [Pattern.parts_star hslash] at h
        obtain ⟨place, m, hreached, hfolder, hfault⟩ := Pattern.exists_reached_of_select_error h
        obtain ⟨cause, hlist, hcause, rfl⟩ := view_shows_eq_error hfault
        obtain ⟨below, hbelow, hthere, -⟩ := hreached.exists_below
        rw [List.nil_append] at hbelow
        subst hbelow
        refine ⟨place, cause, rfl, .inl ⟨⟨n, hbase, ?_⟩, hlist, hcause⟩⟩
        rcases hthere with ⟨rfl, -⟩ | ⟨hmem, -⟩
        · exact .inl rfl
        · cases m with
          | file content => cases hfolder
          | folder entries => exact .inr ⟨entries, hmem⟩

end Search

theorem peeks_listSuffix {f : Folders} {base : Path} (hbase : base ∈ f.paths) {suffix : Text}
    (hsuffix : suffix = f.markupSuffix ∨ suffix = f.producerSuffix) :
    Peeks files (f.ListingFault files) (listSuffix base suffix) := by
  refine ⟨_, looks_listSuffix base suffix, ?_⟩
  unfold stems
  split
  · rename_i hvalid
    exact .pattern hsuffix (by simpa using hvalid)
  · cases hshown : shown files base suffix with
    | error fault =>
        have hmatching : matching files base (Pattern.parts ('*' :: suffix)) = .error fault := by
          unfold shown at hshown
          cases hmatching : matching files base (Pattern.parts ('*' :: suffix)) with
          | error other =>
              rw [hmatching] at hshown
              cases hshown
              rfl
          | ok places =>
              rw [hmatching] at hshown
              cases hshown
        obtain ⟨place, cause, rfl, hbalks | ⟨hslash, hcause, h⟩⟩ :=
          exists_of_matching_error hmatching
        · exact .folder hbase hbalks
        · exact .spelled hbase hsuffix hslash h hcause
    | ok places =>
        simp only [bind, Except.bind]
        split
        · rename_i hnameless
          exact .nameless hbase hsuffix ⟨places, hshown, by simpa using hnameless⟩
        · trivial

theorem peeks_listBase {f : Folders} {base : Path} (hbase : base ∈ f.paths) :
    Peeks files (f.ListingFault files) (f.listBase base) := by
  have hfolder : Peeks files (f.ListingFault files) (isFolder base) := by
    refine ⟨_, looks_isFolder, ?_⟩
    cases hseen : seen files base with
    | ok n => trivial
    | error fault =>
        obtain ⟨cause, hrefused, rfl⟩ := seen_error_iff.mp hseen
        exact .base hbase hrefused
  unfold listBase listBaseVia
  apply hfolder.bind
  intro there
  cases there with
  | false => exact .pure []
  | true =>
      apply (peeks_listSuffix hbase (.inl rfl)).bind
      intro markups
      exact (peeks_listSuffix hbase (.inr rfl)).bind fun producers => .pure _

theorem peeks_list (f : Folders) : Peeks files (f.ListingFault files) f.list :=
  (Peeks.mapM fun _ hbase => peeks_listBase hbase).bind fun _ => .pure _

theorem ListingFault.not_stops {f : Folders} {fault : Fault} (h : f.ListingFault files fault) :
    fault.stops = false ∧ fault.isMissing = false := by
  cases h <;> exact ⟨rfl, rfl⟩

end StaticSite.Folders
