import StaticSite.Proofs.Component.Listing
import StaticSite.Proofs.Files.Making
import StaticSite.Proofs.Files.Matching
import StaticSite.Proofs.Files.Suffixes

/-!
# Identifiers that are listed

A listing goes from the place of a file to an identifier, and a look-up from an identifier to a
path. The two fit together where the suffix can be cut off again: it is a point with something
behind it and no other point, and the file's name is more than the suffix.
-/

namespace StaticSite

open Engine Path

theorem mem_of_foldl {α : Type} {pick : Option α → α → Option α}
    (hpick : ∀ best a, pick best a = best ∨ pick best a = some a) {as : List α} {b : α}
    {best : Option α} (h : as.foldl pick best = some b) : b ∈ as ∨ best = some b := by
  induction as generalizing best with
  | nil => exact .inr h
  | cons a as ih =>
      rcases ih h with hmem | hfirst
      · exact .inl (List.mem_cons_of_mem a hmem)
      · rcases hpick best a with hkept | htaken
        · exact .inr (hkept.symm.trans hfirst)
        · cases htaken.symm.trans hfirst
          exact .inl List.mem_cons_self

namespace Text

theorem nearest?_mem {s t : Text} {candidates : List Text} (h : nearest? s candidates = some t) :
    t ∈ candidates := by
  obtain ⟨best, hbest, rfl⟩ := Option.map_eq_some_iff.mp h
  have hmem := mem_of_foldl (fun best l => ?_) hbest
  · obtain ⟨u, hu, rfl⟩ := List.mem_map.mp (List.mem_filter.mp (hmem.resolve_right nofun)).1
    exact hu
  · cases best with
    | none => exact .inr rfl
    | some b =>
        simp only
        split
        · exact .inr rfl
        · exact .inl rfl

end Text

theorem normalize_of_notMem {identifier : Text} (h : '\\' ∉ identifier) :
    normalize identifier = identifier := by
  have hkept : ∀ c ∈ identifier, (if c = '\\' then '/' else c) = id c := by
    intro c hc
    apply if_neg
    rintro rfl
    exact h hc
  rw [normalize, Text.replaceChar, List.map_congr_left hkept, List.map_id]

namespace Folders

section Shown

variable {files : SiteTree} {base : Path} {suffix : Text}

/-- Below a base, what a listing shows for a suffix are the entries with a name that ends with it
that are not hidden and lie in folders that can be listed. -/
theorem isShown_iff (hordered : files.root.Ordered)
    (hsuffix : Pattern.isWild suffix = false ∧ '/' ∉ suffix)
    (hfolder : Looks files (isFolder base) (.ok true)) {places : List (List Text)}
    (hplaces : shown files base suffix = .ok places) {place : List Text} :
    IsShown files base suffix place ↔
      ∃ lead name n, place = lead ++ [name] ∧ suffix <:+ name ∧
        files.root.get? (files.spot base ++ place) = some n ∧
        (∀ upper, upper <+: lead → ∃ entries, files.list (base.below upper) = .ok entries) ∧
        isHidden (base.below place) = false := by
  obtain ⟨entries, hentries⟩ := looks_isFolder_iff.mp hfolder
  obtain ⟨-, hlook⟩ := seen_some hentries
  have hget := (Tree.find_eq_ok_iff.mp (Tree.find_of_look hlook)).2
  have hmem : IsShown files base suffix place ↔ place ∈ places := by
    constructor
    · rintro ⟨others, hothers, hplace⟩
      cases hplaces.symm.trans hothers
      exact hplace
    · exact fun hplace => ⟨places, hplaces, hplace⟩
  unfold shown matching at hplaces
  rw [Pattern.parts_star hsuffix.2, hlook] at hplaces
  simp only at hplaces
  obtain ⟨found, hfound, rfl⟩ := map_eq_ok_iff.mp hplaces
  rw [hmem, List.mem_filter, Pattern.mem_select_iff (hordered.get? hget) hsuffix.1 hfound]
  simp only [view_shows_iff, Node.get?_append hget]
  constructor
  · rintro ⟨⟨lead, name, n, hplace, hname, hn, hupper⟩, hvisible⟩
    exact ⟨lead, name, n, hplace, hname, hn, hupper, by simpa using hvisible⟩
  · rintro ⟨lead, name, n, hplace, hname, hn, hupper, hvisible⟩
    exact ⟨⟨lead, name, n, hplace, hname, hn, hupper⟩, by simpa using hvisible⟩

/-- No listing shows the base itself for a suffix that means itself. -/
theorem not_isShown_nil (hordered : files.root.Ordered)
    (hsuffix : Pattern.isWild suffix = false ∧ '/' ∉ suffix) : ¬IsShown files base suffix [] := by
  rintro ⟨places, hplaces, hnil⟩
  unfold shown matching at hplaces
  cases hlook : files.look base with
  | error cause =>
      rw [hlook] at hplaces
      cases hplaces
      cases hnil
  | ok n =>
      have hget := (Tree.find_eq_ok_iff.mp (Tree.find_of_look hlook)).2
      rw [Pattern.parts_star hsuffix.2, hlook] at hplaces
      simp only at hplaces
      obtain ⟨found, hfound, rfl⟩ := map_eq_ok_iff.mp hplaces
      obtain ⟨lead, name, m, hplace, -⟩ := (Pattern.mem_select_iff (hordered.get? hget) hsuffix.1
        hfound).mp (List.mem_filter.mp hnil).1
      simp at hplace

/-- A listing can be made where all bases can be looked at and all folders below them listed. -/
theorem exists_list (hordered : files.root.Ordered) {f : Folders}
    (hsuffixes : ∀ suffix, suffix = f.markupSuffix ∨ suffix = f.producerSuffix →
      Pattern.isWild suffix = false ∧ '/' ∉ suffix)
    (hbases : ∀ base ∈ f.paths, Admits files base ∧
      ∀ place cause, ¬Balks files base place cause) : ∃ ids, Looks files f.list (.ok ids) := by
  obtain ⟨result, hlooks, hblame⟩ := @peeks_list files f
  cases result with
  | ok ids => exact ⟨ids, hlooks⟩
  | error fault =>
      refine absurd hblame ?_
      rintro (⟨hbase, hrefused⟩ | ⟨hsuffix, hinvalid⟩ | ⟨-, hsuffix, hnil⟩ | ⟨hbase, hbalks⟩ |
        ⟨-, hsuffix, hslash, -⟩)
      · exact (hbases _ hbase).1 _ hrefused
      · have hplain := hsuffixes _ hsuffix
        rw [Pattern.parts_star hplain.2, Pattern.isValid_star hplain.1] at hinvalid
        cases hinvalid
      · exact not_isShown_nil hordered (hsuffixes _ hsuffix) hnil
      · exact (hbases _ hbase).2 _ _ hbalks
      · exact (hsuffixes _ hsuffix).2 hslash

end Shown

variable {f : Folders} {files : SiteTree} {base : Path} {suffix name : Text} {lead : List Text}
  {n : Node Content}

/-- In a folder `lead` below a base, which is listed with all folders on the way, lies an entry, not
hidden, with a name that ends with one of the suffixes. -/
structure Shows (f : Folders) (files : SiteTree) (base : Path) (suffix : Text) (lead : List Text)
    (name : Text) (n : Node Content) : Prop where
  searched : base ∈ f.paths
  configured : suffix = f.markupSuffix ∨ suffix = f.producerSuffix
  folder : Looks files (isFolder base) (.ok true)
  listed : ∀ upper, upper <+: lead → ∃ entries, files.list (base.below upper) = .ok entries
  there : files.root.get? (files.spot base ++ (lead ++ [name])) = some n
  ends : suffix <:+ name
  visible : isHidden (base.below (lead ++ [name])) = false

theorem exists_showsAs_iff (hordered : files.root.Ordered)
    (hsuffixes : ∀ suffix, suffix = f.markupSuffix ∨ suffix = f.producerSuffix →
      Pattern.isWild suffix = false ∧ '/' ∉ suffix) {s : Session} {ids : List Text}
    (hlist : (f.list.exec files s).1 = .ok ids) {identifier : Text} :
    (∃ base ∈ f.paths, f.ShowsAs files base identifier) ↔
      ∃ base suffix lead name n, f.Shows files base suffix lead name n ∧
        identifier = slashed (dropSuffix (lead ++ [name])) := by
  constructor
  · rintro ⟨base, hbase, hfolder, suffix, hsuffix, place, hplace, rfl⟩
    obtain ⟨places, hplaces⟩ := exists_shown hlist hbase hfolder hsuffix
    obtain ⟨lead, name, n, rfl, hends, hthere, hlisted, hvisible⟩ :=
      (isShown_iff hordered (hsuffixes suffix hsuffix) hfolder hplaces).mp hplace
    exact ⟨base, suffix, lead, name, n,
      ⟨hbase, hsuffix, hfolder, hlisted, hthere, hends, hvisible⟩, rfl⟩
  · rintro ⟨base, suffix, lead, name, n, h, rfl⟩
    obtain ⟨places, hplaces⟩ := exists_shown hlist h.searched h.folder h.configured
    refine ⟨base, h.searched, h.folder, suffix, h.configured, lead ++ [name], ?_, rfl⟩
    apply (isShown_iff hordered (hsuffixes suffix h.configured) h.folder hplaces).mpr
    exact ⟨lead, name, n, rfl, h.ends, h.there, h.listed, h.visible⟩

/-! ## Back from an identifier to its file -/

instance (p : Path) : Decidable (Looks files (isFile p) (.ok true)) :=
  decidable_of_iff (((isFile p).exec files .start).1.toOption = some true)
    ⟨fun h => looks_isFile.of_exec (eq_ok_of_toOption h), fun h => by rw [h .start]; rfl⟩

/-- In a base there is a file of that name with one of the suffixes. Looking a component up looks
for the files that the normalised identifier names. -/
def NamesFile (f : Folders) (files : SiteTree) (name : Text) : Prop :=
  ∃ base ∈ f.paths, Looks files (isFile (base.child (name ++ f.markupSuffix))) (.ok true) ∨
    Looks files (isFile (base.child (name ++ f.producerSuffix))) (.ok true)

instance (f : Folders) (name : Text) : Decidable (f.NamesFile files name) :=
  inferInstanceAs (Decidable (∃ base ∈ f.paths,
    Looks files (isFile (base.child (name ++ f.markupSuffix))) (.ok true) ∨
      Looks files (isFile (base.child (name ++ f.producerSuffix))) (.ok true)))

/-- A listing makes the identifier of an entry that it does not lead back to: the suffix cannot be
cut off, or it is the whole name; or the entry is a folder, or cannot be looked at. -/
def Misnames (f : Folders) (files : SiteTree) (identifier : Text) : Prop :=
  ∃ base suffix lead name n, f.Shows files base suffix lead name n ∧
    identifier = slashed (dropSuffix (lead ++ [name])) ∧
    (¬IsExtension suffix ∨ name = suffix ∨ n.isFolder ∨
      ¬Admits files (base.below (lead ++ [name])))

/-- The identifier of a shown entry leads back to it with a suffix that can be cut off. -/
theorem Shows.child_stem (h : f.Shows files base suffix lead name n) (hwf : files.WellFormed)
    (hextension : IsExtension suffix) (hne : name ≠ suffix) :
    base.child (slashed (dropSuffix (lead ++ [name])) ++ suffix) = base.below (lead ++ [name]) := by
  obtain ⟨stem, hname⟩ := h.ends
  have hstem : stem ≠ [] := by
    rintro rfl
    exact hne hname.symm
  have hcut : Path.suffix name = suffix := hname ▸ suffix_append hextension hstem
  have hnames : ∀ part ∈ lead ++ [name], IsName part :=
    fun part hpart => hwf.names _ _ h.there part (List.mem_append_right _ hpart)
  have hslashed := slashed_dropSuffix lead name
  rw [hcut] at hslashed
  rw [hslashed, child_slashed base (by simp) hnames]

theorem Shows.looks_isFile {content : Content}
    (h : f.Shows files base suffix lead name (.file content)) (hwf : files.WellFormed)
    (hadmits : Admits files (base.below (lead ++ [name]))) :
    Looks files (isFile (base.below (lead ++ [name]))) (.ok true) := by
  obtain ⟨entries, hentries⟩ := looks_isFolder_iff.mp h.folder
  obtain ⟨hnull, hfind⟩ := (seen_some hentries).imp_right Tree.find_of_look
  have hnames : ∀ part ∈ lead ++ [name], IsName part :=
    fun part hpart => hwf.names _ _ h.there part (List.mem_append_right _ hpart)
  have htext := null_notMem_below hnull hnames
  have hbelow : files.look (base.below (lead ++ [name])) = .ok (.file content) := by
    apply (Tree.look_of_find (Tree.find_below hfind (Tree.parentName_notMem hnames)
      h.there)).resolve_right
    rintro ⟨cause, hrefused, hmissing, hfolder⟩
    exact hadmits cause ⟨htext, hrefused, hmissing, hfolder⟩
  intro s
  rw [Engine.looks_isFile s, seen_of_look htext hbelow]
  rfl

/-- The identifier that a listing makes of an entry names the entry, if that is a file. -/
theorem Shows.namesFile_or_misnames (h : f.Shows files base suffix lead name n)
    (hwf : files.WellFormed) :
    f.NamesFile files (slashed (dropSuffix (lead ++ [name]))) ∨
      f.Misnames files (slashed (dropSuffix (lead ++ [name]))) := by
  by_cases hreason : ¬IsExtension suffix ∨ name = suffix ∨ n.isFolder ∨
      ¬Admits files (base.below (lead ++ [name]))
  · exact .inr ⟨base, suffix, lead, name, n, h, rfl, hreason⟩
  · simp only [not_or, Classical.not_not, Bool.not_eq_true] at hreason
    obtain ⟨hextension, hne, hfile, hadmits⟩ := hreason
    obtain ⟨content, rfl⟩ := Node.exists_of_not_isFolder hfile
    have hlooks := h.looks_isFile hwf hadmits
    rw [← h.child_stem hwf hextension hne] at hlooks
    rcases h.configured with rfl | rfl
    · exact .inl ⟨base, h.searched, .inl hlooks⟩
    · exact .inl ⟨base, h.searched, .inr hlooks⟩

end Folders

/-- A listing, which can be made where the bases can be looked at and the folders below them listed,
gives the identifiers of exactly the entries that the bases show. Each of them, and whatever is
suggested from them, names a file, unless it comes from an entry that no identifier leads back to.
-/
theorem Folders.list_names_files {files : SiteTree} {f : Folders} (hwf : files.WellFormed)
    (hsuffixes : ∀ suffix, suffix = f.markupSuffix ∨ suffix = f.producerSuffix →
      Pattern.isWild suffix = false ∧ '/' ∉ suffix) :
    ((∀ base ∈ f.paths, Admits files base ∧ ∀ place cause, ¬Balks files base place cause) →
      ∃ ids, Looks files f.list (.ok ids)) ∧
    ∀ s ids, (f.list.exec files s).1 = .ok ids → ∀ identifier,
      (identifier ∈ ids ↔ ∃ base suffix lead name n, f.Shows files base suffix lead name n ∧
        identifier = slashed (dropSuffix (lead ++ [name]))) ∧
      ((identifier ∈ ids ∨ ∃ wanted, Text.nearest? wanted ids = some identifier) →
        (f.NamesFile files identifier ∧
          ('\\' ∉ identifier → f.NamesFile files (normalize identifier))) ∨
        f.Misnames files identifier) := by
  constructor
  · exact exists_list hwf.ordered hsuffixes
  · intro s ids hlist identifier
    have hlists : identifier ∈ ids ↔ ∃ base suffix lead name n,
        f.Shows files base suffix lead name n ∧
          identifier = slashed (dropSuffix (lead ++ [name])) :=
      (mem_list_iff hlist).trans (exists_showsAs_iff hwf.ordered hsuffixes hlist)
    refine ⟨hlists, fun hid => ?_⟩
    have hmem : identifier ∈ ids := by
      rcases hid with hid | ⟨wanted, hnearest⟩
      · exact hid
      · exact Text.nearest?_mem hnearest
    obtain ⟨base, suffix, lead, name, n, hshows, rfl⟩ := hlists.mp hmem
    apply (hshows.namesFile_or_misnames hwf).imp_left
    intro hnames
    refine ⟨hnames, fun hplain => ?_⟩
    rw [normalize_of_notMem hplain]
    exact hnames

/-! ### Cards that are listed -/

def listingFolders (suffix : Text) : Folders := ⟨[ofText "site"], .utf8, suffix, ".py", .plain⟩

def listingFiles (entries : List (Text × Node Content)) : SiteTree :=
  ⟨.folder [("site", .folder entries)], []⟩

def listedIn (suffix : Text) (entries : List (Text × Node Content)) : Option (List Text) :=
  ((listingFolders suffix).list.exec (listingFiles entries) .start).1.toOption

def cardEntry : Text × Node Content := ("Card.html", .file (.bytes [99]))

theorem list_names_files_card :
    (listingFiles [cardEntry]).WellFormed ∧
      (∀ suffix, suffix = (listingFolders ".html").markupSuffix ∨
          suffix = (listingFolders ".html").producerSuffix →
        Pattern.isWild suffix = false ∧ '/' ∉ suffix) ∧
      listedIn ".html" [cardEntry] = some ["Card".toList] ∧
      (listingFolders ".html").NamesFile (listingFiles [cardEntry]) "Card" := by
  have hwf : (listingFiles [cardEntry]).WellFormed :=
    Tree.wellFormed_of_descendants (by decide) (by decide) ⟨_, rfl⟩
  have hsuffixes : ∀ suffix, suffix = (listingFolders ".html").markupSuffix ∨
      suffix = (listingFolders ".html").producerSuffix →
        Pattern.isWild suffix = false ∧ '/' ∉ suffix := by
    rintro suffix (rfl | rfl) <;> exact ⟨by decide, by decide⟩
  have hlist : listedIn ".html" [cardEntry] = some ["Card".toList] := by decide +kernel
  have hcard := ((Folders.list_names_files hwf hsuffixes).2 .start ["Card".toList]
    (eq_ok_of_toOption hlist) "Card").2 (.inl List.mem_cons_self)
  have hleads : ¬(listingFolders ".html").Misnames (listingFiles [cardEntry]) "Card" := by
    -- The only entry below the folder is a file with more than the suffix as its name.
    rintro ⟨base, suffix, lead, name, n, hshows, -, hreason⟩
    obtain rfl := List.mem_singleton.mp hshows.searched
    have hentry : lead = [] ∧ (name, n) = cardEntry := by
      have hmem := Node.mem_descendants hshows.there (by simp)
      rcases List.mem_cons.mp hmem with heq | hmem
      · cases lead <;> cases heq
      · have heq := List.mem_singleton.mp hmem
        rcases lead with - | ⟨first, - | ⟨second, lead⟩⟩ <;> cases heq
        exact ⟨rfl, rfl⟩
    obtain ⟨rfl, heq⟩ := hentry
    cases heq
    rcases hshows.configured with rfl | rfl
    · rcases hreason with hextension | hname | hfolder | hrefused
      · exact hextension ⟨"html", rfl, by decide, by decide⟩
      · exact absurd hname (by decide)
      · cases hfolder
      · exact hrefused (admits_of_look rfl)
    · exact absurd hshows.ends (by decide)
  exact ⟨hwf, hsuffixes, hlist, (hcard.resolve_right hleads).1⟩

/-- A listing gives one identifier, and that names no file. -/
def ListsNoFile (suffix : Text) (entries : List (Text × Node Content)) (identifier : Text) : Prop :=
  listedIn suffix entries = some [identifier] ∧
    ¬(listingFolders suffix).NamesFile (listingFiles entries) identifier

instance (suffix : Text) (entries : List (Text × Node Content)) (identifier : Text) :
    Decidable (ListsNoFile suffix entries identifier) :=
  inferInstanceAs (Decidable (_ ∧ ¬_))

/-- Folders, files that are named like the suffix, and suffixes of another kind make identifiers
that name no file. -/
theorem list_names_no_file :
    ListsNoFile ".html" [("Card.html", .folder [])] "Card" ∧
      ListsNoFile ".html" [(".html", .file (.bytes []))] ".html" ∧
      ListsNoFile ".x.html" [("Card.x.html", .file (.bytes []))] "Card.x" ∧
      ListsNoFile "_c" [("Card_c", .file (.bytes []))] "Card_c" ∧
      ListsNoFile "/index.html" [("Card", .folder [("index.html", .file (.bytes []))])]
        "Card/index" := by
  decide +kernel

end StaticSite
