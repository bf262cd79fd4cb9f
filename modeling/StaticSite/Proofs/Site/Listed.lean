import StaticSite.Proofs.Component.Listing
import StaticSite.Proofs.Files.Changes
import StaticSite.Proofs.Site.Survey
import StaticSite.Site.Build

/-!
# Listed pages and assets

Every page that is discovered stands for a file below the root that is seen by its path, and so does
every asset that is listed.
-/

namespace StaticSite

open Engine Node

/-! ## Pages -/

section Pages

variable {files : SiteTree} {root : Path} {componentsDir page : Text} {s : Session}
  {entries : List (Text × Node Content)} {pages : List Text} {place : List Text} {n : Node Content}

theorem Reached.get? (h : Reached files root componentsDir entries place n)
    (hlists : Lists files root entries) :
    files.root.get? (files.spot root ++ place) = some n := by
  obtain ⟨-, hfolder⟩ := Tree.find_eq_ok_iff.mp hlists.find.2
  rw [get?_append hfolder]
  exact h.there

theorem Reached.isName (h : Reached files root componentsDir entries place n)
    (hwf : files.WellFormed) (hlists : Lists files root entries) :
    ∀ name ∈ place, Path.IsName name :=
  fun name hname => hwf.names _ _ (h.get? hlists) name (List.mem_append_right _ hname)

theorem Reached.null_notMem (h : Reached files root componentsDir entries place n)
    (hwf : files.WellFormed) (hlists : Lists files root entries) :
    '\x00' ∉ (root.below place).text :=
  Path.null_notMem_below hlists.look.1 (h.isName hwf hlists)

/-- What stands below a path is seen, if it can be looked at. -/
theorem look_below {m : Node Content} (hroot : files.find root = .ok m)
    (hnames : ∀ name ∈ place, Path.IsName name) (hnull : '\x00' ∉ root.text)
    (hn : files.root.get? (files.spot root ++ place) = some n)
    (hadmits : Admits files (root.below place)) : files.look (root.below place) = .ok n := by
  have hclear := Path.null_notMem_below hnull hnames
  have hsame := look_eq_find hadmits hclear
  rcases Tree.find_below hroot (Tree.parentName_notMem hnames) hn with hfind | hlong
  · rw [hsame, hfind]
  · rw [hlong] at hsame
    exact (hadmits _ ⟨hclear, hsame, by decide, by decide⟩).elim

/-- What a walk comes to is seen by its path, if that can be looked at. -/
theorem Reached.look (h : Reached files root componentsDir entries place n)
    (hwf : files.WellFormed) (hlists : Lists files root entries)
    (hadmits : Admits files (root.below place)) : files.look (root.below place) = .ok n :=
  look_below hlists.find.2 (h.isName hwf hlists) hlists.look.1 (h.get? hlists) hadmits

/-- Discovery that ends well gives the pages below a root that can be listed, and none otherwise. -/
theorem discovered_of_discoverPages (hordered : files.root.Ordered)
    (h : ((discoverPages root componentsDir).exec files s).1 = .ok pages) :
    (∃ entries, Discovered files root componentsDir entries pages) ∨
      pages = [] ∧ '\x00' ∉ root.text ∧ ∀ entries, ¬Lists files root entries := by
  cases hlisting : listing files root with
  | ok entries =>
      obtain ⟨-, hfolder⟩ := Tree.find_eq_ok_iff.mp (Lists.find hlisting).2
      rcases exists_reports_discoverPages (hordered.get? hfolder) hlisting with
        ⟨found, records, hreports, hdiscovered, -⟩ | ⟨place, n, fault, records, -, -, hreports⟩
      · rw [hreports s] at h
        cases h
        exact .inl ⟨entries, hdiscovered⟩
      · rw [hreports s] at h
        cases h
  | error fault =>
      have hnull : '\x00' ∉ root.text := by
        intro hnull
        rw [discoverPages, exec_bind, looks_listFolder?_of_null hnull s] at h
        cases h
      refine .inr ⟨?_, hnull, fun entries hlists => by cases hlisting.symm.trans hlists⟩
      obtain ⟨hfile, hstops⟩ := (listing_eq_error hlisting).resolve_right fun h => hnull h.1
      have hlist := logs_listFolder?_of_unlisted hlisting hfile hstops
      rw [discoverPages, exec_bind, hlist s] at h
      cases h
      rfl

/-- Pages are only ever discovered in a root that can be listed. -/
theorem discovered_of_mem (hordered : files.root.Ordered)
    (h : ((discoverPages root componentsDir).exec files s).1 = .ok pages) (hpage : page ∈ pages) :
    ∃ entries, Discovered files root componentsDir entries pages := by
  rcases discovered_of_discoverPages hordered h with hdiscovered | ⟨rfl, -⟩
  · exact hdiscovered
  · cases hpage

/-- A page that was discovered stands for a file below the root. -/
theorem file_of_discoverPages (hordered : files.root.Ordered)
    (h : ((discoverPages root componentsDir).exec files s).1 = .ok pages) (hpage : page ∈ pages) :
    ∃ place raw, page = Path.slashed place ∧ place ≠ [] ∧
      files.root.get? (files.spot root ++ place) = some (.file raw) := by
  obtain ⟨entries, hdiscovered⟩ := discovered_of_mem hordered h hpage
  obtain ⟨place, raw, hplace, hreached, -⟩ := (hdiscovered.mem page).mp hpage
  exact ⟨place, raw, hplace, hreached.ne, hreached.get? hdiscovered.lists⟩

end Pages

/-! ## Assets -/

theorem mem_insertPlace {p place : List Text} {places : List (List Text)} :
    p ∈ insertPlace place places ↔ p = place ∨ p ∈ places := by
  induction places with
  | nil => simp [insertPlace]
  | cons q places ih =>
      rw [insertPlace]
      split
      · simp
      · simp only [List.mem_cons, ih]
        exact or_left_comm

theorem mem_sortPlaces {p : List Text} {places : List (List Text)} :
    p ∈ sortPlaces places ↔ p ∈ places := by
  induction places with
  | nil => rfl
  | cons place places ih =>
      rw [List.mem_cons, ← ih]
      exact mem_insertPlace

section Assets

variable {files : SiteTree} {root : Path}

/-- What comes of looking for the files among some places below a folder. -/
def filesSeen (files : SiteTree) (root : Path) : List (List Text) → Except Fault (List (List Text))
  | [] => .ok []
  | place :: places => do
      let there ←
        (seen files (root.below place)).map fun n => (n.map fun n => !n.isFolder).getD false
      let found ← filesSeen files root places
      return if there then place :: found else found

theorem looks_filesAmong (places : List (List Text)) :
    Looks files (filesAmong root places) (filesSeen files root places) := by
  induction places with
  | nil => exact .pure []
  | cons place places ih => exact looks_isFile.bind fun there => ih.bind fun found => .pure _

/-- What comes of listing the files below a folder. -/
def listedBelow (files : SiteTree) (root : Path) : Except Fault (List (List Text)) := do
  return sortPlaces (← filesSeen files root (← Folders.matching files root (Pattern.parts "*")))

theorem looks_filesBelow : Looks files (filesBelow root) (listedBelow files root) := by
  intro s
  rw [filesBelow, exec_bind, exec_read, listedBelow]
  simp only
  cases Folders.matching files root (Pattern.parts "*") with
  | error fault => rfl
  | ok places =>
      have hamong : Looks files (filesAmong root places) _ := looks_filesAmong places
      exact (hamong.bind fun found => .pure (sortPlaces found)) s

theorem mem_filesSeen_iff {places found : List (List Text)} {q : List Text}
    (h : filesSeen files root places = .ok found) :
    q ∈ found ↔ q ∈ places ∧ ∃ content, seen files (root.below q) = .ok (some (.file content)) := by
  induction places generalizing found with
  | nil =>
      cases h
      simp
  | cons place places ih =>
      obtain ⟨there, hthere, h⟩ := bind_eq_ok_iff.mp h
      obtain ⟨rest, hrest, h⟩ := bind_eq_ok_iff.mp h
      cases h
      have hfile : there = true ↔
          ∃ content, seen files (root.below place) = .ok (some (.file content)) := by
        cases hseen : seen files (root.below place) with
        | error fault =>
            rw [hseen] at hthere
            cases hthere
        | ok n =>
            rw [hseen] at hthere
            cases hthere
            rcases n with _ | content | entries <;> simp [Node.isFolder]
      rw [List.mem_cons, or_and_right, ← ih hrest]
      cases there with
      | true =>
          rw [if_pos rfl, List.mem_cons]
          refine or_congr_left ⟨?_, And.left⟩
          rintro rfl
          exact ⟨rfl, hfile.mp rfl⟩
      | false =>
          rw [if_neg Bool.false_ne_true]
          refine (or_iff_right ?_).symm
          rintro ⟨rfl, hcontent⟩
          cases hfile.mpr hcontent

theorem exists_filesSeen_iff {places : List (List Text)} :
    (∃ found, filesSeen files root places = .ok found) ↔
      ∀ place ∈ places, Admits files (root.below place) := by
  induction places with
  | nil => exact iff_of_true ⟨[], rfl⟩ nofun
  | cons place places ih =>
      rw [List.forall_mem_cons, ← ih]
      constructor
      · rintro ⟨found, h⟩
        obtain ⟨there, hthere, h⟩ := bind_eq_ok_iff.mp h
        obtain ⟨rest, hrest, -⟩ := bind_eq_ok_iff.mp h
        obtain ⟨seen, hseen, -⟩ := map_eq_ok_iff.mp hthere
        exact ⟨admits_of_seen hseen, rest, hrest⟩
      · rintro ⟨hplace, rest, hrest⟩
        obtain ⟨there, hthere⟩ := exists_seen hplace
        rw [filesSeen, hthere, hrest]
        exact ⟨_, rfl⟩

theorem sublist_filesSeen {places found : List (List Text)}
    (h : filesSeen files root places = .ok found) : found.Sublist places := by
  induction places generalizing found with
  | nil =>
      cases h
      exact .slnil
  | cons place places ih =>
      obtain ⟨there, -, h⟩ := bind_eq_ok_iff.mp h
      obtain ⟨rest, hrest, h⟩ := bind_eq_ok_iff.mp h
      cases h
      cases there with
      | true => exact (ih hrest).cons_cons place
      | false => exact (ih hrest).cons place

theorem parts_star : Pattern.parts "*" = ['*' :: []] := Pattern.parts_star (by simp)

/-- What is listed below a folder are the files in it, and below it in folders that can be listed.
-/
theorem mem_listedBelow_iff {n : Node Content} (hn : n.Ordered) (hlook : files.look root = .ok n)
    {places : List (List Text)} (h : listedBelow files root = .ok places) {q : List Text} :
    q ∈ places ↔ q ≠ [] ∧ (∃ m, n.get? q = some m) ∧
      (∀ upper, upper <+: q.dropLast → ∃ entries, files.list (root.below upper) = .ok entries) ∧
      ∃ content, seen files (root.below q) = .ok (some (.file content)) := by
  obtain ⟨found, hfound, h⟩ := bind_eq_ok_iff.mp h
  obtain ⟨kept, hkept, h⟩ := bind_eq_ok_iff.mp h
  cases h
  unfold Folders.matching at hfound
  rw [hlook, parts_star] at hfound
  rw [mem_sortPlaces, mem_filesSeen_iff hkept, Pattern.mem_select_iff hn rfl hfound]
  simp only [Folders.view_shows_iff]
  constructor
  · rintro ⟨⟨lead, name, m, rfl, -, hm, hupper⟩, hfile⟩
    rw [List.dropLast_concat]
    exact ⟨List.append_ne_nil_of_right_ne_nil _ (List.cons_ne_nil _ _), ⟨m, hm⟩, hupper, hfile⟩
  · rintro ⟨hne, ⟨m, hm⟩, hupper, hfile⟩
    refine ⟨⟨q.dropLast, q.getLast hne, m, ?_, List.nil_suffix, hm, hupper⟩, hfile⟩
    exact (List.dropLast_concat_getLast hne).symm

theorem nodup_filesSeen {n : Node Content} (hn : n.Ordered) (hlook : files.look root = .ok n)
    {places found : List (List Text)}
    (hplaces : Folders.matching files root (Pattern.parts "*") = .ok places)
    (h : filesSeen files root places = .ok found) : found.Nodup := by
  unfold Folders.matching at hplaces
  rw [hlook, parts_star] at hplaces
  simp only [Pattern.select_doubleStar] at hplaces
  exact (Pattern.nodup_inFolders rfl [] n hn hplaces).sublist (sublist_filesSeen h)

/-- What is listed below a folder are files with proper names. -/
theorem file_of_mem_listedBelow (hwf : files.WellFormed) {n : Node Content}
    (hlook : files.look root = .ok n) {places : List (List Text)}
    (h : listedBelow files root = .ok places) {q : List Text} (hq : q ∈ places) :
    q ≠ [] ∧ (∀ name ∈ q, Path.IsName name) ∧
      ∃ content, files.root.get? (files.spot root ++ q) = some (.file content) := by
  obtain ⟨-, hn⟩ := Tree.find_eq_ok_iff.mp (Tree.find_of_look hlook)
  obtain ⟨hne, ⟨m, hm⟩, -, content, hseen⟩ :=
    (mem_listedBelow_iff (hwf.ordered.get? hn) hlook h).mp hq
  have hnames : ∀ name ∈ q, Path.IsName name := fun name hname =>
    hwf.names _ _ ((get?_append hn q).trans hm) name (List.mem_append_right _ hname)
  obtain ⟨-, hfile⟩ := Tree.find_eq_ok_iff.mp (seen_of_file hseen).2
  rw [Tree.spot_below _ _ (Tree.parentName_notMem hnames)] at hfile
  exact ⟨hne, hnames, content, hfile⟩

end Assets

end StaticSite
