import Mathlib.Data.List.Nodup
import StaticSite.Proofs.Files.Descendants
import StaticSite.Proofs.Files.SameFolders

/-!
# Files under new names

All files of a tree are given new names at once, each in its folder, and those without a new name
are taken out. What stands at a place afterwards is what was there under an old name, provided that
no two things of one folder end up with the same name.
-/

namespace StaticSite

namespace Node

variable {α : Type}

/-- No folder in the tree has two different entries of one name. -/
def Distinct (n : Node α) : Prop :=
  ∀ place entries, n.get? place = some (.folder entries) →
    ∀ name m m', (name, m) ∈ entries → (name, m') ∈ entries → m = m'

def newName (rename : Text → Option Text) (e : Text × Node α) : Option Text :=
  if e.2.isFolder then some e.1 else rename e.1

mutual

def renameFiles (rename : Text → Option Text) : Node α → Node α
  | .file content => .file content
  | .folder entries => .folder (renameEntries rename entries)

def renameEntries (rename : Text → Option Text) : List (Text × Node α) → List (Text × Node α)
  | [] => []
  | (name, n) :: es =>
      (newName rename (name, n)).toList.map (·, renameFiles rename n) ++ renameEntries rename es

end

variable {rename : Text → Option Text} {n m : Node α} {entries : List (Text × Node α)}
  {name : Text} {place : List Text} {content : α}

theorem mem_renameEntries :
    (name, m) ∈ renameEntries rename entries ↔
      ∃ e ∈ entries, newName rename e = some name ∧ m = e.2.renameFiles rename := by
  induction entries with
  | nil => simp [renameEntries]
  | cons e es ih =>
      obtain ⟨old, k⟩ := e
      have hfirst : (name, m) ∈ (newName rename (old, k)).toList.map (·, renameFiles rename k) ↔
          newName rename (old, k) = some name ∧ m = k.renameFiles rename := by
        simp [eq_comm]
      rw [renameEntries, List.mem_append, hfirst, ih, List.exists_mem_cons_iff]

theorem renameFiles_eq_file_iff : n.renameFiles rename = .file content ↔ n = .file content := by
  cases n <;> simp [renameFiles]

/-! ## Distinct names -/

theorem Distinct.entry?_eq_some_iff (h : (Node.folder entries).Distinct) :
    entry? name entries = some n ↔ (name, n) ∈ entries := by
  refine ⟨mem_of_entry_eq_some, fun hmem => ?_⟩
  cases hentry : entry? name entries with
  | none =>
      have hother := List.find?_eq_none.mp (Option.map_eq_none_iff.mp hentry) _ hmem
      simp at hother
  | some m => rw [h [] entries rfl name m n (mem_of_entry_eq_some hentry) hmem]

theorem Distinct.below (h : n.Distinct) {place : List Text} (hm : n.get? place = some m) :
    m.Distinct := by
  intro more entries hget
  exact h (place ++ more) entries (by rw [get?_append hm, hget])

theorem Distinct.mem (h : (Node.folder entries).Distinct) (hmem : (name, n) ∈ entries) :
    n.Distinct := by
  have hget : (Node.folder entries).get? [name] = some n := by
    rw [get?_folder_cons, h.entry?_eq_some_iff.mpr hmem]
    rfl
  exact h.below hget

/-- If no two nodes are listed below a node for the same place, names are distinct. -/
theorem distinct_of_nodup (h : (n.descendants.map Prod.fst).Nodup) : n.Distinct := by
  have hinj : ∀ d ∈ n.descendants, ∀ d' ∈ n.descendants, d.1 = d'.1 → d = d' :=
    fun d hd d' hd' heq => List.inj_on_of_nodup_map h hd hd' heq
  clear h
  intro place
  induction place generalizing n with
  | nil =>
      rintro entries hget name m m' hm hm'
      cases hget
      have heq := hinj _ (mem_entryDescendants hm).1 _ (mem_entryDescendants hm').1 rfl
      exact (Prod.mk.inj heq).2
  | cons first place ih =>
      intro entries hget
      cases n with
      | file content => cases hget
      | folder es =>
          rw [get?_folder_cons] at hget
          obtain ⟨k, hentry, hget⟩ := Option.bind_eq_some_iff.mp hget
          have hbelow := (mem_entryDescendants (mem_of_entry_eq_some hentry)).2
          refine ih (fun d hd d' hd' heq => ?_) entries hget
          have hsame := hinj _ (hbelow d hd) _ (hbelow d' hd') (congrArg (first :: ·) heq)
          exact Prod.ext heq (Prod.mk.inj hsame).2

/-! ## What stands at a place afterwards -/

theorem isFolder_of_get? {entries : List (Text × Node α)}
    (h : n.get? place = some (.folder entries)) : n.isFolder := by
  cases n with
  | folder es => rfl
  | file content => cases place <;> cases h

section Places

variable (h : n.Distinct) (h' : (n.renameFiles rename).Distinct)

include h'

theorem get?_renameFiles_of_folder (hget : n.get? place = some (.folder entries)) :
    (n.renameFiles rename).get? place = some (.folder (renameEntries rename entries)) := by
  induction place generalizing n with
  | nil =>
      cases hget
      rfl
  | cons name place ih =>
      cases n with
      | file content => cases hget
      | folder es =>
          rw [get?_folder_cons] at hget
          obtain ⟨k, hentry, hget⟩ := Option.bind_eq_some_iff.mp hget
          have hfolder : k.isFolder := isFolder_of_get? hget
          have hmem : (name, k.renameFiles rename) ∈ renameEntries rename es :=
            mem_renameEntries.mpr ⟨_, mem_of_entry_eq_some hentry, if_pos hfolder, rfl⟩
          rw [renameFiles] at h' ⊢
          rw [get?_folder_cons, h'.entry?_eq_some_iff.mpr hmem]
          exact ih (h'.mem hmem) hget

include h

theorem exists_folder_of_renameFiles {entries' : List (Text × Node α)}
    (hget : (n.renameFiles rename).get? place = some (.folder entries')) :
    ∃ entries, n.get? place = some (.folder entries) ∧
      entries' = renameEntries rename entries := by
  induction place generalizing n with
  | nil =>
      cases n with
      | file content => cases hget
      | folder es =>
          cases hget
          exact ⟨es, rfl, rfl⟩
  | cons name place ih =>
      cases n with
      | file content => cases hget
      | folder es =>
          rw [renameFiles] at h' hget
          rw [get?_folder_cons] at hget
          obtain ⟨k, hentry, hbelow⟩ := Option.bind_eq_some_iff.mp hget
          obtain ⟨⟨old, m⟩, hmem, hname, rfl⟩ := mem_renameEntries.mp (mem_of_entry_eq_some hentry)
          have hfolder : m.isFolder := by
            cases m with
            | folder inner => rfl
            | file content => cases isFolder_of_get? hbelow
          obtain rfl : old = name := Option.some.inj ((if_pos hfolder).symm.trans hname)
          have hrenamed := h'.mem (mem_of_entry_eq_some hentry)
          obtain ⟨entries, hentries, rfl⟩ := ih (h.mem hmem) hrenamed hbelow
          refine ⟨entries, ?_, rfl⟩
          rw [get?_folder_cons, h.entry?_eq_some_iff.mpr hmem]
          exact hentries

/-- A file stands under a name if it stood under a name that became it. -/
theorem get?_renameFiles_file_iff :
    (n.renameFiles rename).get? (place ++ [name]) = some (.file content) ↔
      ∃ old, rename old = some name ∧ n.get? (place ++ [old]) = some (.file content) := by
  constructor
  · intro hfile
    obtain ⟨entries', hplace'⟩ := exists_folder_of_append (List.cons_ne_nil name []) hfile
    obtain ⟨entries, hplace, rfl⟩ := exists_folder_of_renameFiles h h' hplace'
    rw [get?_append_name hplace'] at hfile
    obtain ⟨⟨old, m⟩, hmem, hname, heq⟩ := mem_renameEntries.mp (mem_of_entry_eq_some hfile)
    obtain rfl : m = .file content := renameFiles_eq_file_iff.mp heq.symm
    refine ⟨old, hname, ?_⟩
    rw [get?_append_name hplace]
    exact (h.below hplace).entry?_eq_some_iff.mpr hmem
  · rintro ⟨old, hname, hfile⟩
    obtain ⟨entries, hplace⟩ := exists_folder_of_append (List.cons_ne_nil old []) hfile
    have hplace' := get?_renameFiles_of_folder h' hplace
    rw [get?_append_name hplace] at hfile
    rw [get?_append_name hplace', (h'.below hplace').entry?_eq_some_iff, mem_renameEntries]
    exact ⟨_, mem_of_entry_eq_some hfile, hname, rfl⟩

end Places

end Node

namespace Tree

variable {α : Type}

def renameFiles (rename : Text → Option Text) (t : Tree α) : Tree α :=
  { t with root := t.root.renameFiles rename }

theorem sameFolders_renameFiles {rename : Text → Option Text} {t : Tree α}
    (h : t.root.Distinct) (h' : (t.renameFiles rename).root.Distinct) :
    t.SameFolders (t.renameFiles rename) := by
  refine ⟨rfl, fun place => ⟨?_, ?_⟩⟩
  · rintro ⟨entries', hentries'⟩
    obtain ⟨entries, hentries, -⟩ := Node.exists_folder_of_renameFiles h h' hentries'
    exact ⟨entries, hentries⟩
  · rintro ⟨entries, hentries⟩
    exact ⟨_, Node.get?_renameFiles_of_folder h' hentries⟩

end Tree

end StaticSite
