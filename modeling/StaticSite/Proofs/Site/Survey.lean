import StaticSite.Proofs.Compile.Ensures
import StaticSite.Proofs.Component.Probe
import StaticSite.Proofs.Files.Descendants
import StaticSite.Proofs.Text.Order
import StaticSite.Site.Pages

/-!
# Walking through a site

Pages are found on a walk from the root. A folder that cannot be listed is passed over with a
warning, one that bears the name of the components folder without one, and an entry that cannot be
looked at ends the walk.
-/

namespace StaticSite

open Engine Node

/-- The folder can be listed, and these are its entries. -/
def Lists (files : SiteTree) (p : Path) (entries : List (Text × Node Content)) : Prop :=
  listing files p = .ok entries

theorem Lists.look {files : SiteTree} {p : Path} {entries : List (Text × Node Content)}
    (h : Lists files p entries) : '\x00' ∉ p.text ∧ files.look p = .ok (.folder entries) := by
  obtain ⟨hnull, hlist⟩ := listing_eq_ok_iff.mp h
  exact ⟨hnull, Tree.look_of_read (Tree.list_eq_ok_iff.mp hlist)⟩

theorem Lists.find {files : SiteTree} {p : Path} {entries : List (Text × Node Content)}
    (h : Lists files p entries) : '\x00' ∉ p.text ∧ files.find p = .ok (.folder entries) :=
  h.look.imp_right Tree.find_of_look

/-- What is logged of a folder that cannot be listed. -/
def unlisted (p : Path) (fault : Fault) : LogRecord :=
  ⟨.warning, .pages, "Could not read directory " ++ p.text ++ ": " ++ fault.message⟩

section ListFolder

variable {files : SiteTree} {p : Path}

theorem listing_eq_error {fault : Fault} (h : listing files p = .error fault) :
    (fault.isFileFault ∧ fault.stops = false) ∨ '\x00' ∈ p.text ∧ fault = .nullInPath := by
  unfold listing at h
  split at h
  · rename_i hnull
    cases h
    exact .inr ⟨by simpa using hnull, rfl⟩
  · cases hlist : files.list p with
    | ok entries =>
        rw [hlist] at h
        cases h
    | error cause =>
        rw [hlist] at h
        cases h
        exact .inl ⟨rfl, rfl⟩

theorem logs_listFolder? {entries : List (Text × Node Content)} (h : Lists files p entries) :
    Logs files (listFolder? p) (some entries) [] := by
  have hlooks : Looks files (openFolder p) (.ok entries) := h ▸ looks_openFolder
  exact (hlooks.logs_attempt nofun).bind (logs_pure _)

theorem logs_listFolder?_of_unlisted {fault : Fault} (h : listing files p = .error fault)
    (hfile : fault.isFileFault) (hstops : fault.stops = false) :
    Logs files (listFolder? p) none [unlisted p fault] := by
  have hlooks : Looks files (openFolder p) (.error fault) := h ▸ looks_openFolder
  refine (hlooks.logs_attempt fun _ hfault => by cases hfault; exact hstops).bind ?_
  simp only [hfile, if_true]
  exact (logs_record _ _ _).bind (logs_pure _)

theorem looks_listFolder?_of_null (h : '\x00' ∈ p.text) :
    Looks files (listFolder? p) (.error .nullInPath) := by
  have hlooks : Looks files (openFolder p) (.error .nullInPath) := by
    have hlisting : listing files p = .error .nullInPath := by
      rw [listing, if_pos (by simpa using h)]
    exact hlisting ▸ looks_openFolder
  intro s
  rw [listFolder?, exec_bind, exec_attempt, hlooks s]
  rfl

end ListFolder

section Walk

variable {files : SiteTree} {root : Path} {componentsDir : Text}

variable (files root componentsDir) in
/-- A walk from a node at a place comes to a node at another place. -/
inductive Comes : List Text → Node Content → List Text → Node Content → Prop
  | here (place : List Text) (n : Node Content) : Comes place n place n
  | down {place q : List Text} {entries more : List (Text × Node Content)} {name : Text}
      {n m : Node Content} (hname : place.getLast? ≠ some componentsDir)
      (hlists : Lists files (root.below place) more) (he : (name, n) ∈ entries)
      (h : Comes (place ++ [name]) n q m) : Comes place (.folder entries) q m

variable (files root) in
/-- A path at which a walk ends. -/
inductive Halts (q : List Text) : Fault → Prop
  | refused {cause : FileCause} (h : Refuses files (root.below q) cause) :
      Halts q (.file cause (root.below q))
  | null (h : '\x00' ∈ (root.below q).text) : Halts q .nullInPath

variable (files root componentsDir) in
/-- What comes of a walk over certain nodes: their pages, and a warning for each folder that is
passed over because it cannot be listed; or the fault of one of them. -/
inductive Surveyed (comes : List Text → Node Content → Prop) :
    Except Fault (List (List Text)) → List LogRecord → Prop
  | done {places : List (List Text)} {records : List LogRecord}
      (pages : ∀ q, q ∈ places ↔ (∃ content, comes q (.file content)) ∧
        Path.suffix (q.getLast?.getD []) = pageSuffix)
      (seen : ∀ q m, comes q m → Admits files (root.below q))
      (warned : ∀ record, record ∈ records ↔ ∃ q fault, (∃ entries, comes q (.folder entries)) ∧
        q.getLast? ≠ some componentsDir ∧ listing files (root.below q) = .error fault ∧
        record = unlisted (root.below q) fault) : Surveyed comes (.ok places) records
  | halted {q : List Text} {m : Node Content} {fault : Fault} {records : List LogRecord}
      (hq : comes q m) (h : Halts files root q fault) : Surveyed comes (.error fault) records

namespace Surveyed

variable {comes comes' : List Text → Node Content → Prop} {result : Except Fault (List (List Text))}
  {records : List LogRecord}

/-- A walk over no nodes. -/
theorem nil (h : ∀ q m, ¬comes q m) : Surveyed files root componentsDir comes (.ok []) [] := by
  refine .done (fun q => ?_) (fun q m hq => (h q m hq).elim) fun record => ?_
  · exact iff_of_false List.not_mem_nil fun hq => hq.1.elim fun content => h q _
  · refine iff_of_false List.not_mem_nil ?_
    rintro ⟨q, fault, ⟨entries, hq⟩, -⟩
    exact h q _ hq

/-- A walk that ends at a node ends there whatever nodes it was still to come to. -/
theorem error_mono {fault : Fault} {more : List LogRecord}
    (h : Surveyed files root componentsDir comes (.error fault) records)
    (hcomes : ∀ q m, comes q m → comes' q m) :
    Surveyed files root componentsDir comes' (.error fault) more := by
  cases h with
  | halted hq h => exact .halted (hcomes _ _ hq) h

theorem congr (h : Surveyed files root componentsDir comes result records)
    (hcomes : ∀ q m, comes' q m ↔ comes q m) :
    Surveyed files root componentsDir comes' result records := by
  obtain rfl : comes' = comes := funext fun q => funext fun m => propext (hcomes q m)
  exact h

/-- A walk that goes on over further nodes. -/
theorem append {places : List (List Text)} {later : List LogRecord}
    (h : Surveyed files root componentsDir comes (.ok places) records)
    (h' : Surveyed files root componentsDir comes' result later) :
    Surveyed files root componentsDir (fun q m => comes q m ∨ comes' q m)
      (result.map (places ++ ·)) (records ++ later) := by
  cases result with
  | error fault => exact h'.error_mono fun q m => .inr
  | ok more =>
      obtain ⟨pages, seen, warned⟩ := h
      obtain ⟨pages', seen', warned'⟩ := h'
      refine .done (fun q => ?_) (fun q m hq => hq.elim (seen q m) (seen' q m)) fun record => ?_
      · rw [List.mem_append, pages, pages', exists_or, or_and_right]
      · rw [List.mem_append, warned, warned']
        constructor
        · rintro (⟨q, fault, ⟨entries, hq⟩, h⟩ | ⟨q, fault, ⟨entries, hq⟩, h⟩)
          · exact ⟨q, fault, ⟨entries, .inl hq⟩, h⟩
          · exact ⟨q, fault, ⟨entries, .inr hq⟩, h⟩
        · rintro ⟨q, fault, ⟨entries, hq | hq⟩, h⟩
          · exact .inl ⟨q, fault, ⟨entries, hq⟩, h⟩
          · exact .inr ⟨q, fault, ⟨entries, hq⟩, h⟩

variable {place : List Text}

theorem file (content : Content) (hseen : Admits files (root.below place)) :
    Surveyed files root componentsDir (fun q m => q = place ∧ m = .file content)
      (.ok (if Path.suffix (place.getLast?.getD []) = pageSuffix then [place] else [])) [] := by
  refine .done (fun q => ?_) ?_ fun record => ?_
  · constructor
    · intro hq
      split at hq
      · rename_i hsuffix
        obtain rfl := List.mem_singleton.mp hq
        exact ⟨⟨content, rfl, rfl⟩, hsuffix⟩
      · cases hq
    · rintro ⟨⟨_, rfl, -⟩, hsuffix⟩
      rw [if_pos hsuffix]
      exact List.mem_singleton_self _
  · rintro q m ⟨rfl, -⟩
    exact hseen
  · refine iff_of_false List.not_mem_nil ?_
    rintro ⟨q, fault, ⟨entries, -, heq⟩, -⟩
    cases heq

/-- A folder that is listed, or passed over for its name, is not warned of. -/
theorem folder (entries : List (Text × Node Content)) (hseen : Admits files (root.below place))
    (h : place.getLast? = some componentsDir ∨ ∃ more, Lists files (root.below place) more) :
    Surveyed files root componentsDir (fun q m => q = place ∧ m = .folder entries) (.ok []) [] := by
  refine .done (fun q => iff_of_false List.not_mem_nil ?_) ?_ fun record =>
    iff_of_false List.not_mem_nil ?_
  · rintro ⟨⟨content, -, heq⟩, -⟩
    cases heq
  · rintro q m ⟨rfl, -⟩
    exact hseen
  · rintro ⟨q, fault, ⟨_, rfl, -⟩, hname, hlisting, -⟩
    obtain ⟨more, hmore⟩ := h.resolve_left hname
    cases hmore.symm.trans hlisting

theorem unlistedFolder (entries : List (Text × Node Content))
    (hseen : Admits files (root.below place)) (hname : place.getLast? ≠ some componentsDir)
    {fault : Fault} (h : listing files (root.below place) = .error fault) :
    Surveyed files root componentsDir (fun q m => q = place ∧ m = .folder entries) (.ok [])
      [unlisted (root.below place) fault] := by
  refine .done (fun q => iff_of_false List.not_mem_nil ?_) ?_ fun record => ?_
  · rintro ⟨⟨content, -, heq⟩, -⟩
    cases heq
  · rintro q m ⟨rfl, -⟩
    exact hseen
  · rw [List.mem_singleton]
    constructor
    · rintro rfl
      exact ⟨place, fault, ⟨entries, rfl, rfl⟩, hname, h, rfl⟩
    · rintro ⟨q, other, ⟨_, rfl, -⟩, -, hother, rfl⟩
      rw [Except.error.inj (h.symm.trans hother)]

end Surveyed

theorem comes_file_iff {place q : List Text} {content : Content} {m : Node Content} :
    Comes files root componentsDir place (.file content) q m ↔ q = place ∧ m = .file content := by
  constructor
  · intro h
    cases h
    exact ⟨rfl, rfl⟩
  · rintro ⟨rfl, rfl⟩
    exact .here _ _

theorem comes_folder_iff {place q : List Text} {entries : List (Text × Node Content)}
    {m : Node Content} : Comes files root componentsDir place (.folder entries) q m ↔
      (q = place ∧ m = .folder entries) ∨ place.getLast? ≠ some componentsDir ∧
        (∃ more, Lists files (root.below place) more) ∧
        ∃ e ∈ entries, Comes files root componentsDir (place ++ [e.1]) e.2 q m := by
  constructor
  · intro h
    cases h with
    | here => exact .inl ⟨rfl, rfl⟩
    | down hname hlists he h => exact .inr ⟨hname, ⟨_, hlists⟩, _, he, h⟩
  · rintro (⟨rfl, rfl⟩ | ⟨hname, ⟨more, hlists⟩, e, he, h⟩)
    · exact .here _ _
    · exact .down hname hlists he h

/-- What is walked to is looked at first. -/
theorem admits_or_halts {α : Type} (place : List Text) (next : Engine α) :
    (Admits files (root.below place) ∧ ∀ {result records}, Reports files next result records →
      Reports files (isFolder (root.below place) >>= fun _ => next) result records) ∨
    ∃ fault, Halts files root place fault ∧
      Reports files (isFolder (root.below place) >>= fun _ => next) (.error fault) [] := by
  have hlooks : Looks files (isFolder (root.below place)) _ := looks_isFolder
  cases hseen : seen files (root.below place) with
  | error fault =>
      rw [hseen] at hlooks
      obtain ⟨cause, hrefused, rfl⟩ := seen_error_iff.mp hseen
      exact .inr ⟨_, .refused hrefused, hlooks.reports.bind_error _⟩
  | ok there =>
      rw [hseen] at hlooks
      exact .inl ⟨admits_of_seen hseen, fun hnext => hlooks.reports.bind hnext⟩

mutual

/-- A walk over a node comes to the nodes that it should, and to no others. -/
theorem exists_surveyed_pagesIn (place : List Text) : (n : Node Content) → ∃ result records,
    Reports files (pagesIn root componentsDir place n) result records ∧
      Surveyed files root componentsDir (Comes files root componentsDir place n) result records
  | .file content => by
      rw [pagesIn]
      rcases admits_or_halts place _ with ⟨hseen, hnext⟩ | ⟨fault, hhalts, hends⟩
      · refine ⟨_, _, hnext (logs_pure _).reports, ?_⟩
        exact (Surveyed.file content hseen).congr fun q m => comes_file_iff
      · exact ⟨_, _, hends, .halted (.here _ _) hhalts⟩
  | .folder entries => by
      rw [pagesIn]
      rcases admits_or_halts place _ with ⟨hseen, hnext⟩ | ⟨fault, hhalts, hends⟩
      · by_cases hname : place.getLast? = some componentsDir
        · refine ⟨.ok [], [], hnext ?_, ?_⟩
          · rw [if_pos hname]
            exact (logs_pure _).reports
          · refine (Surveyed.folder entries hseen (.inl hname)).congr fun q m => ?_
            exact comes_folder_iff.trans (or_iff_left fun h => h.1 hname)
        · cases hlisting : listing files (root.below place) with
          | ok more =>
              obtain ⟨result, records, hreports, hsurveyed⟩ :=
                exists_surveyed_pagesAmong place entries
              have hlist := logs_listFolder? hlisting
              refine ⟨result, [] ++ records, hnext ?_, ?_⟩
              · rw [if_neg hname]
                exact hlist.reports.bind hreports
              · have hall :=
                  (Surveyed.folder entries hseen (.inr ⟨more, hlisting⟩)).append hsurveyed
                rw [show result.map ([] ++ ·) = result by cases result <;> rfl] at hall
                refine hall.congr fun q m => comes_folder_iff.trans (or_congr_right ?_)
                exact (and_iff_right hname).trans (and_iff_right ⟨more, hlisting⟩)
          | error fault =>
              rcases listing_eq_error hlisting with ⟨hfile, hstops⟩ | ⟨hnull, -⟩
              · refine ⟨.ok [], [unlisted (root.below place) fault] ++ [], hnext ?_, ?_⟩
                · rw [if_neg hname]
                  have hlist := (logs_listFolder?_of_unlisted hlisting hfile hstops).reports
                  exact hlist.bind (logs_pure []).reports
                · refine (Surveyed.unlistedFolder entries hseen hname hlisting).congr fun q m => ?_
                  refine comes_folder_iff.trans (or_iff_left ?_)
                  rintro ⟨-, ⟨more, hmore⟩, -⟩
                  cases hmore.symm.trans hlisting
              · refine ⟨.error .nullInPath, [], hnext ?_, .halted (.here _ _) (.null hnull)⟩
                rw [if_neg hname]
                exact (looks_listFolder?_of_null hnull).reports.bind_error _
      · exact ⟨_, _, hends, .halted (.here _ _) hhalts⟩

theorem exists_surveyed_pagesAmong (place : List Text) : (entries : List (Text × Node Content)) →
    ∃ result records, Reports files (pagesAmong root componentsDir place entries) result records ∧
      Surveyed files root componentsDir (fun q m => ∃ e ∈ entries,
        Comes files root componentsDir (place ++ [e.1]) e.2 q m) result records
  | [] => by
      rw [pagesAmong]
      exact ⟨_, _, (logs_pure _).reports, .nil fun q m ⟨e, he, _⟩ => by cases he⟩
  | (name, n) :: es => by
      obtain ⟨result, records, hreports, hsurveyed⟩ := exists_surveyed_pagesIn (place ++ [name]) n
      obtain ⟨result', records', hreports', hsurveyed'⟩ := exists_surveyed_pagesAmong place es
      rw [pagesAmong]
      cases result with
      | error fault =>
          refine ⟨_, _, hreports.bind_error _, hsurveyed.error_mono fun q m h => ?_⟩
          exact ⟨_, List.mem_cons_self, h⟩
      | ok pages =>
          refine ⟨_, _, hreports.bind (hreports'.map (pages ++ ·)), ?_⟩
          refine (hsurveyed.append hsurveyed').congr fun q m => ?_
          simp only [List.mem_cons, exists_eq_or_imp]

end

/-- How discovery ends, and what it logs, does not depend on what was done before. -/
theorem exists_reports_discoverPages_any (files : SiteTree) (root : Path) (componentsDir : Text) :
    ∃ result records, Reports files (discoverPages root componentsDir) result records := by
  cases hlisting : listing files root with
  | ok entries =>
      obtain ⟨result, records, hreports, -⟩ :=
        @exists_surveyed_pagesAmong files root componentsDir [] entries
      exact ⟨_, _, (logs_listFolder? hlisting).reports.bind (hreports.map _)⟩
  | error fault =>
      rcases listing_eq_error hlisting with ⟨hfile, hstops⟩ | ⟨hnull, -⟩
      · have hlist := (logs_listFolder?_of_unlisted hlisting hfile hstops).reports
        exact ⟨_, _, hlist.bind (logs_pure []).reports⟩
      · exact ⟨_, _, (looks_listFolder?_of_null hnull).reports.bind_error _⟩

/-! ## Where a walk comes to -/

/-- A walk passes through the folders above what it comes to: they can be listed, and their names
are other than that of the components folder. -/
theorem Comes.exists_rest {place q : List Text} {n m : Node Content} (hn : n.Ordered)
    (h : Comes files root componentsDir place n q m) : ∃ rest, q = place ++ rest ∧
      n.get? rest = some m ∧ ∀ upper, upper <+: rest → upper ≠ rest →
        (place ++ upper).getLast? ≠ some componentsDir ∧
          ∃ more, Lists files (root.below (place ++ upper)) more := by
  induction h with
  | here place n =>
      refine ⟨[], (List.append_nil place).symm, rfl, fun upper hupper hne => ?_⟩
      exact absurd (List.prefix_nil.mp hupper) hne
  | @down place q entries more name n m hname hlists he h ih =>
      have hentries := hn [] entries rfl
      have hentry := entry?_of_mem hentries he
      obtain ⟨rest, rfl, hget, hpassed⟩ := ih ((ordered_folder_iff hentries).mp hn _ _ hentry)
      refine ⟨name :: rest, by simp, ?_, fun upper hupper hne => ?_⟩
      · rw [get?_folder_cons, hentry]
        exact hget
      · cases upper with
        | nil => simpa using ⟨hname, more, hlists⟩
        | cons first upper =>
            obtain ⟨rfl, hrest⟩ := List.cons_prefix_cons.mp hupper
            simpa using hpassed upper hrest fun heq => hne (congrArg (first :: ·) heq)

theorem Comes.of_get? {place rest : List Text} {n m : Node Content} (hn : n.get? rest = some m)
    (hpassed : ∀ upper, upper <+: rest → upper ≠ rest →
      (place ++ upper).getLast? ≠ some componentsDir ∧
        ∃ more, Lists files (root.below (place ++ upper)) more) :
    Comes files root componentsDir place n (place ++ rest) m := by
  induction rest generalizing n place with
  | nil =>
      cases hn
      rw [List.append_nil]
      exact .here place _
  | cons name rest ih =>
      cases n with
      | file content => cases hn
      | folder entries =>
          rw [get?_folder_cons] at hn
          obtain ⟨k, hentry, hk⟩ := Option.bind_eq_some_iff.mp hn
          have hhere := hpassed [] List.nil_prefix (List.cons_ne_nil name rest).symm
          rw [List.append_nil] at hhere
          obtain ⟨hname, more, hlists⟩ := hhere
          refine .down hname hlists (mem_of_entry_eq_some hentry) ?_
          have hrest : Comes files root componentsDir (place ++ [name]) k
              (place ++ [name] ++ rest) m := by
            refine ih hk fun upper hupper hne => ?_
            simpa using hpassed (name :: upper) (List.cons_prefix_cons.mpr ⟨rfl, hupper⟩)
              fun heq => hne (List.cons.inj heq).2
          rwa [List.append_assoc, List.singleton_append] at hrest

/-- The folders above a place lead to it one by one. -/
theorem notMem_dropLast_iff {name : Text} {place : List Text} : name ∉ place.dropLast ↔
    ∀ upper, upper <+: place → upper ≠ place → upper.getLast? ≠ some name := by
  constructor
  · rintro hname upper ⟨rest, rfl⟩ hne hlast
    have hrest : rest ≠ [] := fun hempty => hne (by rw [hempty, List.append_nil])
    rw [List.dropLast_append_of_ne_nil hrest] at hname
    exact hname (List.mem_append_left _ (List.mem_of_getLast? hlast))
  · intro hlast hname
    obtain ⟨before, after, hsplit⟩ := List.append_of_mem hname
    have hupper : before ++ [name] <+: place.dropLast := ⟨after, by simp [hsplit]⟩
    refine hlast _ (hupper.trans (List.dropLast_prefix place)) (fun heq => ?_) List.getLast?_concat
    rw [← heq, List.dropLast_concat] at hsplit
    simp at hsplit

variable (files root componentsDir) in
/-- A walk from a root with these entries comes to a node: it stands below the root, not below a
folder with the name of the components folder, and every folder above it can be listed. -/
structure Reached (entries : List (Text × Node Content)) (place : List Text) (n : Node Content) :
    Prop where
  ne : place ≠ []
  there : (Node.folder entries).get? place = some n
  outside : componentsDir ∉ place.dropLast
  listed : ∀ upper, upper <+: place → upper ≠ place → upper ≠ [] →
    ∃ more, Lists files (root.below upper) more

theorem reached_iff {entries : List (Text × Node Content)} (h : (Node.folder entries).Ordered)
    {place : List Text} {n : Node Content} : Reached files root componentsDir entries place n ↔
      ∃ e ∈ entries, Comes files root componentsDir ([] ++ [e.1]) e.2 place n := by
  have hentries := h [] entries rfl
  constructor
  · rintro ⟨hne, hthere, houtside, hlisted⟩
    obtain ⟨name, rest, rfl⟩ := List.exists_cons_of_ne_nil hne
    rw [get?_folder_cons] at hthere
    obtain ⟨k, hentry, hk⟩ := Option.bind_eq_some_iff.mp hthere
    refine ⟨_, mem_of_entry_eq_some hentry, ?_⟩
    have hcomes : Comes files root componentsDir [name] k ([name] ++ rest) n := by
      refine .of_get? hk fun upper hupper hne => ?_
      have hbegin : name :: upper <+: name :: rest := List.cons_prefix_cons.mpr ⟨rfl, hupper⟩
      have hproper : name :: upper ≠ name :: rest := fun heq => hne (List.cons.inj heq).2
      exact ⟨notMem_dropLast_iff.mp houtside _ hbegin hproper,
        hlisted _ hbegin hproper (List.cons_ne_nil _ _)⟩
    exact hcomes
  · rintro ⟨⟨name, k⟩, he, hcomes⟩
    have hentry := entry?_of_mem hentries he
    obtain ⟨rest, rfl, hget, hpassed⟩ :=
      hcomes.exists_rest ((ordered_folder_iff hentries).mp h _ _ hentry)
    constructor
    case ne => exact List.cons_ne_nil _ _
    case there =>
      change (Node.folder entries).get? (name :: rest) = _
      rw [get?_folder_cons, hentry]
      exact hget
    case outside =>
      refine notMem_dropLast_iff.mpr fun upper hupper hne => ?_
      cases upper with
      | nil => simp
      | cons first upper =>
          obtain ⟨rfl, hrest⟩ := List.cons_prefix_cons.mp hupper
          exact (hpassed upper hrest fun heq => hne (congrArg (first :: ·) heq)).1
    case listed =>
      intro upper hupper hne hnonempty
      obtain ⟨first, upper, rfl⟩ := List.exists_cons_of_ne_nil hnonempty
      obtain ⟨rfl, hrest⟩ := List.cons_prefix_cons.mp hupper
      exact (hpassed upper hrest fun heq => hne (congrArg (first :: ·) heq)).2

/-! ## The pages of a root -/

variable (files root componentsDir) in
/-- The pages below a root with these entries, in strict code point order. -/
structure Discovered (entries : List (Text × Node Content)) (pages : List Text) : Prop where
  lists : Lists files root entries
  ordered : pages.Pairwise fun s t => Text.le s t ∧ s ≠ t
  mem : ∀ page, page ∈ pages ↔ ∃ place content, page = Path.slashed place ∧
    Reached files root componentsDir entries place (.file content) ∧
    Path.suffix (place.getLast?.getD []) = pageSuffix
  seen : ∀ place n, Reached files root componentsDir entries place n →
    Admits files (root.below place)

variable {entries : List (Text × Node Content)} {records : List LogRecord}

/-- Below a root that can be listed, discovery gives the pages and a warning for each folder that is
passed over because it cannot be listed, or it ends at what it comes to. -/
theorem exists_reports_discoverPages (hordered : (Node.folder entries).Ordered)
    (hlists : Lists files root entries) :
    (∃ pages records, Reports files (discoverPages root componentsDir) (.ok pages) records ∧
      Discovered files root componentsDir entries pages ∧
      ∀ record, record ∈ records ↔ ∃ place more fault,
        Reached files root componentsDir entries place (.folder more) ∧
        place.getLast? ≠ some componentsDir ∧ listing files (root.below place) = .error fault ∧
        record = unlisted (root.below place) fault) ∨
    ∃ place n fault records, Reached files root componentsDir entries place n ∧
      Halts files root place fault ∧
      Reports files (discoverPages root componentsDir) (.error fault) records := by
  obtain ⟨result, records, hreports, hsurveyed⟩ :=
    @exists_surveyed_pagesAmong files root componentsDir [] entries
  replace hsurveyed :=
    hsurveyed.congr fun q m => @reached_iff files root componentsDir _ hordered q m
  have hlist := (logs_listFolder? hlists).reports
  cases hsurveyed with
  | @done places records pages seen warned =>
      have hordered := Text.pairwise_sortedSet (places.map Path.slashed)
      refine .inl ⟨_, _, hlist.bind (hreports.map _), ⟨hlists, hordered, ?_, seen⟩, ?_⟩
      · intro page
        rw [Text.mem_sortedSet, List.mem_map]
        constructor
        · rintro ⟨place, hplace, rfl⟩
          obtain ⟨⟨content, hreached⟩, hsuffix⟩ := (pages place).mp hplace
          exact ⟨place, content, rfl, hreached, hsuffix⟩
        · rintro ⟨place, content, rfl, hreached, hsuffix⟩
          exact ⟨place, (pages place).mpr ⟨⟨content, hreached⟩, hsuffix⟩, rfl⟩
      · intro record
        rw [List.nil_append, warned]
        constructor
        · rintro ⟨q, fault, ⟨more, hq⟩, h⟩
          exact ⟨q, more, fault, hq, h⟩
        · rintro ⟨q, more, fault, hq, h⟩
          exact ⟨q, fault, ⟨more, hq⟩, h⟩
  | halted hq h => exact .inr ⟨_, _, _, _, hq, h, hlist.bind (hreports.bind_error _)⟩

end Walk

end StaticSite
