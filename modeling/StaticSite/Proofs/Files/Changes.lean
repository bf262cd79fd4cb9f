import StaticSite.Component.Script
import StaticSite.Proofs.Files.Making
import StaticSite.Proofs.Files.Proper
import StaticSite.Proofs.Files.SameFolders

/-!
# Changes of a tree

What making folders and writing files at proper paths does to a tree: folders are added, files are
written at known places, and the tree stays one that a file system can hold.
-/

namespace StaticSite.Tree

open Node Path

section Places

variable {α : Type} {t u : Tree α} {p : Path} {place q : List Text}

/-- The place lies below what the path means, with every `..` taken literally. -/
def IsBelow (t : Tree α) (p : Path) (q : List Text) : Prop :=
  ∃ rest, rest ≠ [] ∧ q = (t.resolve p).parts ++ rest

theorem isBelow_iff (ht : t.WellFormed) :
    t.IsBelow p q ↔ ∃ rest, rest ≠ [] ∧ q = t.spot p ++ rest := by
  rw [IsBelow, parts_resolve ht.parentName_notMem_current]

theorem isBelow_spot_below (ht : t.WellFormed) (hne : place ≠ [])
    (hnames : ∀ name ∈ place, IsName name) : t.IsBelow p (t.spot (p.below place)) :=
  (isBelow_iff ht).mpr ⟨place, hne, spot_below t p (parentName_notMem hnames)⟩

/-- What a path leads to is spelled by names of the current folder and by parts of the path that do
not lead up. -/
theorem WellFormed.mem_spot (ht : t.WellFormed) {part : Text} (h : part ∈ t.spot p) :
    IsName part ∨ part ∈ p.parts ∧ part ≠ parentName := by
  refine (mem_lead h).imp_left fun hstart => ?_
  rw [start] at hstart
  split at hstart
  · cases hstart
  · obtain ⟨entries, hcurrent⟩ := ht.current
    exact ht.names _ _ hcurrent part hstart

theorem WellFormed.parentName_notMem_spot (ht : t.WellFormed) (p : Path) :
    parentName ∉ t.spot p := by
  intro h
  rcases ht.mem_spot h with hname | ⟨-, hup⟩
  · exact hname.2.2.2.2 rfl
  · exact hup rfl

/-- A path that was made absolute leads where it led before. -/
theorem WellFormed.spot_resolve (ht : t.WellFormed) (p : Path) :
    t.spot (t.resolve p) = t.spot p := by
  have hparts := parts_resolve ht.parentName_notMem_current p
  calc
    t.spot (t.resolve p) = lead [] (t.resolve p).parts := rfl
    _ = (t.resolve p).parts := lead_of_notMem (hparts ▸ ht.parentName_notMem_spot p) []
    _ = t.spot p := hparts

theorem WellFormed.isProper_resolve (ht : t.WellFormed) (hp : p.IsProper) :
    (t.resolve p).IsProper := by
  intro part hpart
  rw [parts_resolve ht.parentName_notMem_current] at hpart
  rcases ht.mem_spot hpart with ⟨hempty, hslash, -, hhere, -⟩ | ⟨hmem, -⟩
  · exact ⟨hempty, hslash, hhere⟩
  · exact hp part hmem

/-- The path leads to an entry, old or new, of a folder that is there. -/
structure Reaches (t : Tree α) (p : Path) (parent : List Text) (name : Text) : Prop where
  short : tooLong p = false
  walked : ∃ init, p.parts = init ++ [name] ∧ walk t.root (t.start p) init = .ok parent
  folder : ∃ entries, t.root.get? parent = some (.folder entries)
  down : name ≠ parentName
  limit : ¬nameLimit < (Text.encodeUtf8 name).length
  clear : barred t.guard t.root (t.start p) p.parts = none

namespace Reaches

variable {parent : List Text} {name : Text}

theorem spot (h : t.Reaches p parent name) : t.spot p = parent ++ [name] := by
  obtain ⟨init, hparts, hwalk⟩ := h.walked
  exact spot_of_walk hparts hwalk h.down

/-- An entry that is there is what the path leads to. -/
theorem locate (h : t.Reaches p parent name) {n : Node α} (hn : t.root.get? (t.spot p) = some n) :
    t.locate p = .ok (t.spot p) := by
  obtain ⟨init, hparts, hwalk⟩ := h.walked
  obtain ⟨entries, hfolder⟩ := h.folder
  rw [h.spot] at hn ⊢
  refine locate_eq_ok_iff.mpr ⟨h.short, ?_⟩
  rw [hparts, walk_append hwalk]
  exact walk_name hfolder h.down h.limit ⟨n, hn⟩

theorem look (h : t.Reaches p parent name) {n : Node α} (hn : t.root.get? (t.spot p) = some n) :
    t.look p = .ok n :=
  look_eq_ok_iff.mpr ⟨h.clear, find_eq_ok_iff.mpr ⟨h.locate hn, hn⟩⟩

theorem grows (h : t.Reaches p parent name) (hu : t.Grows u) : u.Reaches p parent name := by
  obtain ⟨init, hparts, hwalk⟩ := h.walked
  obtain ⟨entries, hfolder⟩ := h.folder
  have hstart : u.start p = t.start p := by rw [start, start, hu.current]
  constructor
  case short => exact h.short
  case walked => exact ⟨init, hparts, hstart ▸ walk_keepsKinds hu.kinds hwalk⟩
  case folder => exact hu.kinds.folder hfolder
  case down => exact h.down
  case limit => exact h.limit
  case clear =>
    have hclear := h.clear
    rw [hparts] at hclear ⊢
    rw [hstart, hu.guard]
    rw [barred_concat_keepsKinds _ hu.kinds _ hwalk h.folder, hclear]

theorem isName (ht : t.WellFormed) (hp : p.IsProper) (hnull : '\x00' ∉ p.text)
    (h : t.Reaches p parent name) : ∀ part ∈ t.spot p, IsName part := by
  obtain ⟨init, hparts, -⟩ := h.walked
  obtain ⟨entries, hfolder⟩ := h.folder
  have hmem : name ∈ p.parts := by
    rw [hparts]
    exact List.mem_append_right _ (List.mem_singleton_self name)
  intro part hpart
  rw [h.spot] at hpart
  rcases List.mem_append.mp hpart with hpart | hpart
  · exact ht.names _ _ hfolder part hpart
  · obtain ⟨hempty, hslash, hhere⟩ := hp name hmem
    rw [List.mem_singleton.mp hpart]
    exact ⟨hempty, hslash, fun hc => hnull ((null_mem_text_iff p).mpr ⟨name, hmem, hc⟩), hhere,
      h.down⟩

end Reaches

theorem exists_reaches (ht : t.Tidy) {there : Option (Node α)}
    (h : t.locateNew p = .ok (place, there)) (hthere : ∀ n, there = some n → n.isFolder = false) :
    ∃ parent name, t.Reaches p parent name := by
  cases opens_of_locateNew ht h with
  | folder entries => cases hthere _ rfl
  | @entry init parent name entries short parts walked parent_folder down limit =>
      exact ⟨parent, name, short, ⟨init, parts, walked⟩, ⟨entries, parent_folder⟩, down, limit,
        (open_of_locateNew h).2⟩

theorem exists_reaches_of_makeFolder (ht : t.Tidy) (h : t.makeFolder p = .ok u) :
    ∃ parent name, t.Reaches p parent name := by
  unfold makeFolder at h
  cases hlocate : t.locateNew p with
  | error cause => rw [hlocate] at h; cases h
  | ok found =>
      rw [hlocate] at h
      refine exists_reaches ht hlocate fun n hn => ?_
      simp only [bind, Except.bind, hn] at h
      cases h

theorem exists_reaches_of_writeFile (ht : t.Tidy) {content : α}
    (h : t.writeFile p content = .ok u) : ∃ parent name, t.Reaches p parent name := by
  unfold writeFile at h
  cases hlocate : t.locateNew p with
  | error cause => rw [hlocate] at h; cases h
  | ok found =>
      obtain ⟨place, there⟩ := found
      rw [hlocate] at h
      refine exists_reaches ht hlocate fun n hn => ?_
      subst hn
      cases n with
      | file old => rfl
      | folder entries => cases h

theorem WellFormed.of_made (ht : t.WellFormed) {new : Node α} (h : Made place new t u)
    (hnames : ∀ name ∈ place, IsName name) : u.WellFormed := by
  refine ⟨ht.toTidy.after h.current h.kinds h.placed.ordered, fun q n hn => ?_⟩
  by_cases hq : q = place
  · rw [hq]
    exact hnames
  · cases n with
    | file content => exact ht.names q _ ((h.placed.files q content hq).mp hn)
    | folder entries =>
        obtain ⟨entries', hentries'⟩ := (h.placed.folders q hq).mp ⟨entries, hn⟩
        exact ht.names q _ hentries'

/-! ## Paths that are there -/

theorem locateNew_of_look {n : Node α} (h : t.look p = .ok n) :
    t.locateNew p = .ok (t.spot p, some n) := by
  obtain ⟨hclear, hfind⟩ := look_eq_ok_iff.mp h
  obtain ⟨hlocate, hn⟩ := find_eq_ok_iff.mp hfind
  obtain ⟨hshort, hwalk⟩ := locate_eq_ok_iff.mp hlocate
  unfold locateNew
  rw [if_neg (by simp [hshort]), hclear]
  rcases List.eq_nil_or_concat p.parts with hparts | ⟨init, name, hparts⟩
  · have hspot : t.spot p = t.start p := by rw [Tree.spot, hparts, lead]
    rw [hparts, ← hspot, hn]
    rfl
  · rw [List.concat_eq_append] at hparts
    rw [hparts] at hwalk ⊢
    rw [List.getLast?_append, List.dropLast_concat]
    change (if name = parentName then _ else _ : Except FileCause _) = _
    split
    · rw [hwalk]
      exact congrArg (fun there => Except.ok (t.spot p, there)) hn
    · rename_i hname
      obtain ⟨parent, hinit, hlast⟩ := exists_walk_of_append hwalk
      have hspot : t.spot p = parent ++ [name] := spot_of_walk hparts hinit hname
      rw [hspot] at hn
      obtain ⟨entries, hfolder⟩ := exists_folder_of_append (List.cons_ne_nil name []) hn
      rw [get?_append_name hfolder] at hn
      rw [walk, hfolder] at hlast
      simp only [if_neg hname] at hlast
      split at hlast
      · cases hlast
      · rename_i hlimit
        simp only [bind, Except.bind, hinit, hfolder, List.getLast_singleton, if_neg hlimit, hn,
          hspot]
        rfl

theorem makeFolder_of_look {n : Node α} (h : t.look p = .ok n) :
    t.makeFolder p = .error .alreadyThere := by
  unfold makeFolder
  rw [locateNew_of_look h]
  rfl

theorem writeFile_of_look {old new : α} (h : t.look p = .ok (.file old)) :
    t.writeFile p new = .ok (t.putAt (t.spot p) (.file new)) := by
  unfold writeFile
  rw [locateNew_of_look h]
  rfl

theorem spot_eq_of_samePlace {p' : Path} (h : t.samePlace p p') : t.spot p = t.spot p' := by
  have hplace {p : Path} {place : List Text} (hlocate : t.locate p = .ok place) :
      place = t.spot p := eq_lead_of_walk (locate_eq_ok_iff.mp hlocate).2
  unfold samePlace at h
  split at h
  · rename_i hp hp'
    rw [← hplace hp, ← hplace hp']
    exact eq_of_beq h
  · cases h

/-- Paths to one place are seen to be so where the first is found. -/
theorem Reaches.spot_ne {p' : Path} {parent : List Text} {name : Text} {n : Node α}
    (h : t.Reaches p' parent name) (hfind : t.find p = .ok n) (hapart : t.samePlace p p' = false) :
    t.spot p ≠ t.spot p' := by
  intro hspot
  obtain ⟨hlocate, hn⟩ := find_eq_ok_iff.mp hfind
  rw [hspot] at hn
  rw [samePlace, hlocate, h.locate hn, hspot] at hapart
  simp at hapart

/-- A folder that was made is seen where it was made. -/
theorem look_of_makeFolder (ht : t.Tidy) (h : t.makeFolder p = .ok u) :
    u.look p = .ok (.folder []) := by
  obtain ⟨hmade, -⟩ := made_of_makeFolder ht h
  obtain ⟨parent, name, hreaches⟩ := exists_reaches_of_makeFolder ht h
  have hthere := hmade.placed.at_place
  rw [← hmade.spot p] at hthere
  exact (hreaches.grows hmade.toGrows).look hthere

/-- A file that was written is seen where it was written. -/
theorem look_of_writeFile (ht : t.Tidy) {content : α} (h : t.writeFile p content = .ok u) :
    u.look p = .ok (.file content) := by
  have hmade := made_of_writeFile ht h
  obtain ⟨parent, name, hreaches⟩ := exists_reaches_of_writeFile ht h
  have hthere := hmade.placed.at_place
  rw [← hmade.spot p] at hthere
  exact (hreaches.grows hmade.toGrows).look hthere

end Places

/-! ## Trees of one shape -/

section Shape

variable {α : Type} {root root' : Node α} {t u : Tree α} {p : Path} {place parts q : List Text}

theorem get?_map_isFolder (h : root.KeepsKinds root') (h' : root'.KeepsKinds root)
    (q : List Text) : (root'.get? q).map Node.isFolder = (root.get? q).map Node.isFolder := by
  cases hn : root.get? q with
  | some n =>
      obtain ⟨m, hm, hkind⟩ := h q n hn
      rw [hm, Option.map_some, Option.map_some, hkind]
  | none =>
      cases hm : root'.get? q with
      | none => rfl
      | some m =>
          obtain ⟨n, hn', -⟩ := h' q m hm
          cases hn.symm.trans hn'

theorem walk_eq_of_keepsKinds (h : root.KeepsKinds root') (h' : root'.KeepsKinds root) :
    walk root' place parts = walk root place parts := by
  induction parts generalizing place with
  | nil => rfl
  | cons part parts ih =>
      have hplace := get?_map_isFolder h h' place
      rw [walk, walk]
      cases hn : root.get? place with
      | none =>
          rw [hn, Option.map_none, Option.map_eq_none_iff] at hplace
          rw [hplace]
      | some n =>
          obtain ⟨m, hm, hkind⟩ := h place n hn
          rw [hm]
          cases n with
          | file content =>
              obtain ⟨other, rfl⟩ := exists_of_not_isFolder hkind
              rfl
          | folder entries =>
              obtain ⟨entries', rfl⟩ := exists_of_isFolder hkind
              have hentry := get?_map_isFolder h h' (place ++ [part])
              rw [get?_append_name hn, get?_append_name hm] at hentry
              simp only [ih]
              cases hold : entry? part entries with
              | none =>
                  rw [hold, Option.map_none, Option.map_eq_none_iff] at hentry
                  rw [hentry]
              | some old =>
                  rw [hold] at hentry
                  obtain ⟨new, hnew, -⟩ := Option.map_eq_some_iff.mp hentry
                  rw [hnew]

theorem find_map_isFolder (hcurrent : u.current = t.current) (h : t.root.KeepsKinds u.root)
    (h' : u.root.KeepsKinds t.root) (p : Path) :
    (u.find p).map Node.isFolder = (t.find p).map Node.isFolder := by
  have hlocate : u.locate p = t.locate p := by
    rw [Tree.locate, Tree.locate, start, start, hcurrent, walk_eq_of_keepsKinds h h']
  unfold find
  rw [hlocate]
  cases t.locate p with
  | error cause => rfl
  | ok place =>
      have hkind := get?_map_isFolder h h' place
      simp only [bind, Except.bind]
      cases hn : t.root.get? place with
      | none =>
          rw [hn, Option.map_none, Option.map_eq_none_iff] at hkind
          rw [hkind]
      | some n =>
          obtain ⟨m, hm, hsame⟩ := h place n hn
          rw [hm]
          exact congrArg Except.ok hsame

/-- What kind of node is seen at a path depends on the shape of the tree. -/
theorem look_map_isFolder (h : t.Grows u) (h' : u.root.KeepsKinds t.root) (p : Path) :
    (u.look p).map Node.isFolder = (t.look p).map Node.isFolder := by
  have hsame : t.SameFolders u := ⟨h.current, fun place =>
    ⟨fun ⟨_, hes⟩ => h'.folder hes, fun ⟨_, hes⟩ => h.kinds.folder hes⟩⟩
  unfold look
  rw [hsame.start_eq, hsame.barred_eq (by rw [h.guard])]
  split
  · rfl
  split
  · rfl
  · exact find_map_isFolder h.current h.kinds h' p

/-- A file written where a file was, or a folder where a folder was, leaves the shape as it is. -/
theorem Made.keepsKinds_back {new : Node α} (h : Made place new t u)
    (hthere : ∃ m, t.root.get? place = some m ∧ m.isFolder = new.isFolder) :
    u.root.KeepsKinds t.root := by
  intro q m hm
  by_cases hq : q = place
  · subst hq
    obtain ⟨n, hn, hkind⟩ := hthere
    rw [h.placed.at_place] at hm
    cases hm
    exact ⟨n, hn, hkind⟩
  · cases m with
    | file content => exact ⟨_, (h.placed.files q content hq).mp hm, rfl⟩
    | folder entries =>
        obtain ⟨entries', hentries'⟩ := (h.placed.folders q hq).mp ⟨entries, hm⟩
        exact ⟨_, hentries', rfl⟩

end Shape

/-! ## The tree before and after -/

/-- Folders were added, and files written at places of which a condition holds. -/
structure Changes (written : List Text → Prop) (t u : SiteTree) : Prop
    extends Spares written t u where
  wellFormed : u.WellFormed
  /-- A module is never made, only copied. -/
  modules : ∀ q module, u.root.get? q = some (.file (.code module)) →
    ∃ q', t.root.get? q' = some (.file (.code module))

namespace Changes

variable {t u v : SiteTree} {written more : List Text → Prop} {p : Path}

theorem refl (ht : t.WellFormed) : Changes written t t :=
  ⟨.refl written t, ht, fun q _ h => ⟨q, h⟩⟩

theorem trans (h : Changes written t u) (h' : Changes written u v) : Changes written t v := by
  constructor
  case toSpares => exact h.toSpares.trans h'.toSpares
  case wellFormed => exact h'.wellFormed
  case modules =>
    intro q module hq
    obtain ⟨q', hq'⟩ := h'.modules q module hq
    exact h.modules q' module hq'

theorem mono (h : Changes written t u) (hmore : ∀ q, written q → more q) : Changes more t u :=
  { h with toSpares := h.toSpares.mono hmore }

end Changes

variable {t u : SiteTree} {p : Path}

theorem changes_of_makeFolder (ht : t.WellFormed) (hp : p.IsProper) (hnull : '\x00' ∉ p.text)
    (h : t.makeFolder p = .ok u) : Changes (fun _ => False) t u := by
  obtain ⟨hmade, -⟩ := made_of_makeFolder ht.toTidy h
  obtain ⟨parent, name, hreaches⟩ := exists_reaches_of_makeFolder ht.toTidy h
  have hspares := spares_of_makeFolder ht.toTidy h
  constructor
  case toSpares => exact hspares
  case wellFormed => exact ht.of_made hmade (hreaches.isName ht hp hnull)
  case modules => exact fun q module hq => ⟨q, (hspares.files q _ id).mp hq⟩

theorem changes_of_writeFile (ht : t.WellFormed) (hp : p.IsProper) (hnull : '\x00' ∉ p.text)
    {content : Content}
    (hmodules : ∀ module, content = .code module →
      ∃ q, t.root.get? q = some (.file (.code module)))
    (h : t.writeFile p content = .ok u) : Changes (fun q => q = t.spot p) t u := by
  have hmade := made_of_writeFile ht.toTidy h
  obtain ⟨parent, name, hreaches⟩ := exists_reaches_of_writeFile ht.toTidy h
  constructor
  case toSpares => exact hmade.spares
  case wellFormed => exact ht.of_made hmade (hreaches.isName ht hp hnull)
  case modules =>
    intro q module hq
    by_cases hspot : q = t.spot p
    · rw [hspot, hmade.placed.at_place] at hq
      exact hmodules module (Node.file.inj (Option.some.inj hq))
    · exact ⟨q, (hmade.placed.files q _ hspot).mp hq⟩

end StaticSite.Tree
