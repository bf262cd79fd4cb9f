import StaticSite.Proofs.Site.Listings

/-!
# Walking through a tree that has grown

A walk that came to its end comes to its end again once the tree has grown, as long as what is new
can be looked at, and it finds the same pages and the same assets where it finds the same files.
-/

namespace StaticSite

open Engine Tree Path Node

/-- What is new below a path can be looked at and, if it is a folder, listed. -/
def OpensNew (t u : SiteTree) (p : Path) : Prop :=
  ∀ place n, t.root.get? ((t.resolve p).parts ++ place) = none →
    u.root.get? ((t.resolve p).parts ++ place) = some n →
      Admits u (p.below place) ∧ (n.isFolder → ∃ entries, u.list (p.below place) = .ok entries)

/-- What is new between two trees was new between the trees before and after them. -/
theorem OpensNew.between {first last t x : SiteTree} {p : Path} {n : Node Content}
    (h : OpensNew first last p) (hfirst : first.WellFormed) (hlast : last.WellFormed)
    (ht : first.Grows t) (htx : t.Grows x) (hx : last.Grows x)
    (hback : x.root.KeepsKinds last.root) (hup : parentName ∉ t.current)
    (hnull : '\x00' ∉ p.text) (hp : last.find p = .ok n) : OpensNew t x p := by
  intro place m hnone hm
  have hspot : last.spot p = first.spot p := by rw [← hx.spot, htx.spot, ht.spot]
  rw [parts_resolve hup, ht.spot] at hnone hm
  obtain ⟨k, hk, hkind⟩ := hback _ _ hm
  have hnew : first.root.get? ((first.resolve p).parts ++ place) = none := by
    rw [parts_resolve hfirst.parentName_notMem_current]
    cases hold : first.root.get? (first.spot p ++ place) with
    | none => rfl
    | some old =>
        obtain ⟨other, hother, -⟩ := ht.kinds _ _ hold
        cases hnone.symm.trans hother
  have hthere := hk
  rw [← parts_resolve hfirst.parentName_notMem_current] at hthere
  obtain ⟨hadmits, hlists⟩ := h place k hnew hthere
  rw [← hspot] at hk
  have hnames : ∀ name ∈ place, IsName name :=
    fun name hname => hlast.names _ _ hk name (List.mem_append_right _ hname)
  obtain ⟨other, hother, -⟩ := hx.look (look_below hp hnames hnull hk hadmits)
  refine ⟨admits_of_look hother, fun hfolder => ?_⟩
  obtain ⟨es, hes⟩ := hlists (hkind.trans hfolder)
  exact hx.list hes

/-- A folder before and after its tree has grown. -/
structure Regrown (t u : SiteTree) (p : Path) (entries entries' : List (Text × Node Content)) :
    Prop extends Grows t u where
  before : t.WellFormed
  after : u.WellFormed
  nameable : '\x00' ∉ p.text
  look_before : t.look p = .ok (.folder entries)
  look_after : u.look p = .ok (.folder entries')
  opens : OpensNew t u p

namespace Regrown

variable {t u : SiteTree} {p : Path} {entries entries' : List (Text × Node Content)}
  {place : List Text} {n m : Node Content}

theorem get? (h : Regrown t u p entries entries') :
    (Node.folder entries).get? place = t.root.get? (t.spot p ++ place) :=
  (get?_append (find_eq_ok_iff.mp (find_of_look h.look_before)).2 place).symm

theorem get?_after (h : Regrown t u p entries entries') :
    (Node.folder entries').get? place = u.root.get? (t.spot p ++ place) := by
  rw [← h.toGrows.spot p]
  exact (get?_append (find_eq_ok_iff.mp (find_of_look h.look_after)).2 place).symm

theorem ordered_before (h : Regrown t u p entries entries') : (Node.folder entries).Ordered :=
  h.before.ordered.get? (find_eq_ok_iff.mp (find_of_look h.look_before)).2

theorem ordered_after (h : Regrown t u p entries entries') : (Node.folder entries').Ordered :=
  h.after.ordered.get? (find_eq_ok_iff.mp (find_of_look h.look_after)).2

theorem isName (h : Regrown t u p entries entries')
    (hm : u.root.get? (t.spot p ++ place) = some m) : ∀ name ∈ place, IsName name :=
  fun name hname => h.after.names _ _ hm name (List.mem_append_right _ hname)

theorem up (h : Regrown t u p entries entries') (hm : u.root.get? (t.spot p ++ place) = some m) :
    parentName ∉ place := parentName_notMem (h.isName hm)

/-- What is new can be looked at, and so can what could be before. -/
theorem admits (h : Regrown t u p entries entries')
    (hm : u.root.get? (t.spot p ++ place) = some m)
    (hold : ∀ n, t.root.get? (t.spot p ++ place) = some n → Admits t (p.below place)) :
    Admits u (p.below place) := by
  cases hn : t.root.get? (t.spot p ++ place) with
  | none =>
      rw [← parts_resolve h.before.parentName_notMem_current] at hn hm
      exact (h.opens place m hn hm).1
  | some n =>
      have hlook := look_below (find_of_look h.look_before) (h.isName hm) h.nameable hn (hold n hn)
      obtain ⟨k, hk, -⟩ := h.toGrows.look hlook
      exact admits_of_look hk

/-- A folder that is listed in the grown tree was listed before, if it was there. -/
theorem list_back (h : Regrown t u p entries entries')
    (hthere : ∃ n, t.root.get? (t.spot p ++ place) = some n) {es : List (Text × Node Content)}
    (hlist : u.list (p.below place) = .ok es) : ∃ es', t.list (p.below place) = .ok es' := by
  obtain ⟨n, hn⟩ := hthere
  obtain ⟨m, hm, hkind⟩ := h.kinds _ _ hn
  have hread := find_of_read (list_eq_ok_iff.mp hlist)
  have hget := (find_eq_ok_iff.mp hread).2
  rw [spot_below _ _ (h.up hm), h.toGrows.spot, hm] at hget
  cases hget
  obtain ⟨es', rfl⟩ := exists_of_isFolder hkind.symm
  exact ⟨es', h.toGrows.list_below_back (find_of_look h.look_before) (h.up hm) hn hlist⟩

/-- A folder that was there refuses to be listed as it did before. -/
theorem list_error_back (h : Regrown t u p entries entries') {es : List (Text × Node Content)}
    (hn : t.root.get? (t.spot p ++ place) = some (.folder es)) {cause : FileCause}
    (hlist : u.list (p.below place) = .error cause) :
    t.list (p.below place) = .error cause := by
  obtain ⟨m, hm, -⟩ := h.kinds _ _ hn
  have hsame := h.toGrows.list_below (find_of_look h.look_before) (h.up hm) hn
  rw [hlist] at hsame
  cases hlist' : t.list (p.below place) with
  | ok more =>
      rw [hlist'] at hsame
      cases hsame
  | error other =>
      rw [hlist'] at hsame
      cases hsame
      rfl

theorem shows_back (h : Regrown t u p entries entries')
    (hthere : ∃ n, t.root.get? (t.spot p ++ place) = some n)
    (hshows : (Folders.view u p).shows place = .ok true) :
    (Folders.view t p).shows place = .ok true := by
  obtain ⟨es, hes⟩ := Folders.view_shows_iff.mp hshows
  exact Folders.view_shows_iff.mpr (h.list_back hthere hes)

theorem exists_above {upper : List Text} (hbegin : upper <+: place)
    (hn : t.root.get? (t.spot p ++ place) = some n) :
    ∃ n, t.root.get? (t.spot p ++ upper) = some n := by
  obtain ⟨rest, rfl⟩ := hbegin
  rw [← List.append_assoc] at hn
  exact exists_get?_of_append hn

/-! ## Assets -/

/-- A search that ended well ends well again. -/
theorem exists_matching (h : Regrown t u p entries entries') {found : List (List Text)}
    (hfound : Folders.matching t p (Pattern.parts "*") = .ok found) :
    ∃ found', Folders.matching u p (Pattern.parts "*") = .ok found' := by
  cases hfound' : Folders.matching u p (Pattern.parts "*") with
  | ok found' => exact ⟨found', rfl⟩
  | error fault =>
      exfalso
      unfold Folders.matching at hfound hfound'
      rw [h.look_before, parts_star] at hfound
      rw [h.look_after, parts_star] at hfound'
      obtain ⟨lead, m, hreached, hfolder, hfault⟩ := Pattern.exists_reached_of_select_error hfound'
      obtain ⟨hm, hupper⟩ := hreached.get? h.ordered_after
      rw [h.get?_after] at hm
      obtain ⟨cause, hlist, hcause, -⟩ := Folders.view_shows_eq_error hfault
      cases hn : t.root.get? (t.spot p ++ lead) with
      | none =>
          rw [← parts_resolve h.before.parentName_notMem_current] at hn hm
          obtain ⟨es, hes⟩ := (h.opens lead m hn hm).2 hfolder
          cases hlist.symm.trans hes
      | some n =>
          obtain ⟨k, hk, hkind⟩ := h.kinds _ _ hn
          cases hm.symm.trans hk
          obtain ⟨es, rfl⟩ := exists_of_isFolder (hkind.symm.trans hfolder)
          -- The search came to this folder before, and was not turned away with a fault.
          have hcame : Pattern.Reached (Folders.view t p) [] (Node.folder entries) ([] ++ lead)
              (.folder es) := by
            refine .of_get? (h.get?.trans hn) rfl fun upper hbegin hne => ?_
            exact h.shows_back (exists_above hbegin hn) (hupper upper hbegin hne)
          obtain ⟨shows, hshows⟩ := Pattern.exists_shows_of_select rfl hfound hcame rfl
          unfold Folders.view at hshows
          simp only [List.nil_append, h.list_error_back hn hlist] at hshows
          cases hshows

/-- What was listed can be listed again. -/
theorem exists_listedBelow (h : Regrown t u p entries entries') {places : List (List Text)}
    (hplaces : listedBelow t p = .ok places) : ∃ places', listedBelow u p = .ok places' := by
  obtain ⟨found, hfound, hplaces⟩ := bind_eq_ok_iff.mp hplaces
  obtain ⟨kept, hkept, -⟩ := bind_eq_ok_iff.mp hplaces
  obtain ⟨found', hfound'⟩ := h.exists_matching hfound
  have hadmits := exists_filesSeen_iff.mp ⟨kept, hkept⟩
  obtain ⟨kept', hkept'⟩ : ∃ kept', filesSeen u p found' = .ok kept' := by
    refine exists_filesSeen_iff.mpr fun q hq => ?_
    unfold Folders.matching at hfound hfound'
    rw [h.look_before, parts_star] at hfound
    rw [h.look_after, parts_star] at hfound'
    obtain ⟨lead, name, m, rfl, hname, hm, hupper⟩ :=
      (Pattern.mem_select_iff h.ordered_after rfl hfound').mp hq
    rw [h.get?_after] at hm
    refine h.admits hm fun n hn => hadmits _ ?_
    refine (Pattern.mem_select_iff h.ordered_before rfl hfound).mpr
      ⟨lead, name, n, rfl, hname, h.get?.trans hn, fun upper hbegin => ?_⟩
    exact h.shows_back (exists_above (hbegin.trans (List.prefix_append _ _)) hn)
      (hupper upper hbegin)
  refine ⟨sortPlaces kept', ?_⟩
  rw [listedBelow, hfound']
  exact congrArg (Except.map sortPlaces) hkept'

/-- The same files are listed, where the files are the same. -/
theorem listedBelow_eq (h : Regrown t u p entries entries') {places : List (List Text)}
    (hfiles : ∀ q content, q ≠ [] → (u.root.get? (t.spot p ++ q) = some (.file content) ↔
      t.root.get? (t.spot p ++ q) = some (.file content)))
    (hplaces : listedBelow t p = .ok places) : listedBelow u p = .ok places := by
  obtain ⟨places', hplaces'⟩ := h.exists_listedBelow hplaces
  have hsame : places = places' := by
    refine listedBelow_congr h.ordered_before h.ordered_after h.look_before h.look_after hplaces
      hplaces' fun place => ?_
    rw [mem_listedBelow_iff h.ordered_before h.look_before hplaces,
      mem_listedBelow_iff h.ordered_after h.look_after hplaces', h.get?, h.get?_after]
    refine and_congr_right fun hne => ?_
    constructor
    · rintro ⟨⟨n, hn⟩, hupper, content, hseen⟩
      obtain ⟨m, hm, -⟩ := h.kinds _ _ hn
      obtain ⟨hclear, hlook⟩ := seen_some hseen
      obtain ⟨k, hk, hkind⟩ := h.toGrows.look hlook
      obtain ⟨other, rfl⟩ := exists_of_not_isFolder hkind
      refine ⟨⟨m, hm⟩, fun upper hbegin => ?_, other, seen_of_look hclear hk⟩
      obtain ⟨es, hes⟩ := hupper upper hbegin
      exact h.toGrows.list hes
    · rintro ⟨⟨m, hm⟩, hupper, content, hseen⟩
      have hup := h.up hm
      obtain ⟨hclear, hlook⟩ := seen_some hseen
      have hfile := (find_eq_ok_iff.mp (find_of_look hlook)).2
      rw [spot_below _ _ hup, h.toGrows.spot] at hfile
      have hn := (hfiles place content hne).mp hfile
      have hfind := h.toGrows.find_below (find_of_look h.look_before) hup (find_of_look hlook) hn
      refine ⟨⟨_, hn⟩, fun upper hbegin => ?_, content, ?_⟩
      · obtain ⟨es, hes⟩ := hupper upper hbegin
        exact h.list_back (exists_above (hbegin.trans (List.dropLast_prefix _)) hn) hes
      · exact seen_of_look hclear (h.toGrows.look_back hfind hlook)
  rw [hsame, hplaces']

/-! ## Pages -/

section Pages

variable {componentsDir : Text} {pages : List Text}

theorem reached (h : Regrown t u p entries entries')
    (hreached : Reached t p componentsDir entries place n) :
    ∃ m, Reached u p componentsDir entries' place m ∧ m.isFolder = n.isFolder := by
  obtain ⟨hne, hthere, houtside, hlisted⟩ := hreached
  rw [h.get?] at hthere
  obtain ⟨m, hm, hkind⟩ := h.kinds _ _ hthere
  refine ⟨m, ⟨hne, h.get?_after.trans hm, houtside, ?_⟩, hkind⟩
  intro upper hbegin hproper hnonempty
  obtain ⟨more, hmore⟩ := hlisted upper hbegin hproper hnonempty
  obtain ⟨hclear, hlist⟩ := listing_eq_ok_iff.mp hmore
  obtain ⟨more', hmore'⟩ := h.toGrows.list hlist
  exact ⟨more', listing_eq_ok_iff.mpr ⟨hclear, hmore'⟩⟩

theorem reached_back (h : Regrown t u p entries entries')
    (hreached : Reached u p componentsDir entries' place m)
    (hn : t.root.get? (t.spot p ++ place) = some n) :
    Reached t p componentsDir entries place n := by
  obtain ⟨hne, -, houtside, hlisted⟩ := hreached
  refine ⟨hne, h.get?.trans hn, houtside, fun upper hbegin hproper hnonempty => ?_⟩
  obtain ⟨more, hmore⟩ := hlisted upper hbegin hproper hnonempty
  obtain ⟨hclear, hlist⟩ := listing_eq_ok_iff.mp hmore
  obtain ⟨more', hmore'⟩ := h.list_back (exists_above hbegin hn) hlist
  exact ⟨more', listing_eq_ok_iff.mpr ⟨hclear, hmore'⟩⟩

/-- The same pages are discovered, where no page is new. -/
theorem discoverPages_eq (h : Regrown t u p entries entries') (hlists : Lists u p entries')
    (hpages : Discovered t p componentsDir entries pages)
    (hnew : ∀ place content, IsPagePlace componentsDir place →
      u.root.get? (t.spot p ++ place) = some (.file content) →
        ∃ old, t.root.get? (t.spot p ++ place) = some (.file old)) (s : Session) :
    ((discoverPages p componentsDir).exec u s).1 = .ok pages := by
  rcases @exists_reports_discoverPages u p componentsDir entries' h.ordered_after hlists with
    ⟨pages', records, hreports, hpages', -⟩ | ⟨q, m, fault, records, hreached, hhalts, -⟩
  · have hsame : pages = pages' := by
      refine hpages.congr hpages' fun place hsuffix => ⟨?_, ?_⟩
      · rintro ⟨content, hreached⟩
        obtain ⟨m, hm, hkind⟩ := h.reached hreached
        obtain ⟨other, rfl⟩ := exists_of_not_isFolder hkind
        exact ⟨other, hm⟩
      · rintro ⟨content, hreached⟩
        have hm := h.get?_after.symm.trans hreached.there
        obtain ⟨old, hold⟩ := hnew place content ⟨hreached.outside, hsuffix⟩ hm
        exact ⟨old, h.reached_back hreached hold⟩
    rw [hreports s, hsame]
  · have hm := h.get?_after.symm.trans hreached.there
    cases hhalts with
    | refused hrefused =>
        refine absurd hrefused (h.admits hm (fun n hn => ?_) _)
        exact hpages.seen q n (h.reached_back hreached hn)
    | null hnull => exact (hreached.null_notMem h.after hlists hnull).elim

end Pages

end Regrown

end StaticSite
