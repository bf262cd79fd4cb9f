import StaticSite.Files.Tree
import StaticSite.Proofs.Text.Order

/-!
# Putting a node into a tree

A file or an empty folder put into a folder is found at its place. All other files stay as they
are, all folders stay folders, and the entries of every folder stay in order.
-/

namespace StaticSite.Node

variable {α : Type}

/-- The order in which a folder lists its entries. -/
def Before (e f : Text × Node α) : Prop := Text.le e.1 f.1 ∧ e.1 ≠ f.1

instance : DecidableRel (Before (α := α)) := fun e f =>
  inferInstanceAs (Decidable (Text.le e.1 f.1 ∧ e.1 ≠ f.1))

/-- The entries of a folder; a file has none. -/
def entries : Node α → List (Text × Node α)
  | .file _ => []
  | .folder entries => entries

/-- Every folder in the tree lists its entries in order, each name once. -/
def Ordered (n : Node α) : Prop :=
  ∀ place entries, n.get? place = some (.folder entries) → entries.Pairwise Before

theorem exists_of_isFolder {n : Node α} (h : n.isFolder) : ∃ entries, n = .folder entries := by
  cases n with
  | file content => cases h
  | folder entries => exact ⟨entries, rfl⟩

theorem exists_of_not_isFolder {n : Node α} (h : n.isFolder = false) :
    ∃ content, n = .file content := by
  cases n with
  | file content => exact ⟨content, rfl⟩
  | folder entries => cases h

section Entries

variable {name other : Text} {entries : List (Text × Node α)} {change : Option (Node α) → Node α}

theorem entry?_cons (e : Text × Node α) :
    entry? name (e :: entries) = if e.1 = name then some e.2 else entry? name entries := by
  unfold entry?
  rw [List.find?_cons]
  by_cases h : e.1 = name <;> simp [h]

theorem entry?_changeEntry_of_ne (h : other ≠ name) :
    entry? other (changeEntry name change entries) = entry? other entries := by
  induction entries with
  | nil => simp [changeEntry, entry?, Ne.symm h]
  | cons e es ih =>
      rw [changeEntry]
      split
      · rename_i hname
        rw [entry?_cons, entry?_cons, if_neg (Ne.symm h), if_neg (hname ▸ Ne.symm h)]
      · split
        · rw [entry?_cons, if_neg (Ne.symm h)]
        · rw [entry?_cons, entry?_cons, ih]

theorem entry?_eq_none (h : ∀ e ∈ entries, e.1 ≠ name) : entry? name entries = none := by
  unfold entry?
  rw [Option.map_eq_none_iff, List.find?_eq_none]
  intro e he
  simpa using h e he

theorem entry?_changeEntry_self (h : entries.Pairwise Before) :
    entry? name (changeEntry name change entries) = some (change <| entry? name entries) := by
  induction entries with
  | nil => simp [changeEntry, entry?]
  | cons e es ih =>
      obtain ⟨hfirst, hrest⟩ := List.pairwise_cons.mp h
      rw [changeEntry]
      split
      · rename_i hname
        rw [entry?_cons, entry?_cons, if_pos rfl, if_pos hname]
      · rename_i hname
        split
        · rename_i hle
          have hnone : entry? name (e :: es) = none := by
            apply entry?_eq_none
            intro f hf
            rcases List.mem_cons.mp hf with rfl | hf
            · exact hname
            · rintro rfl
              exact hname (Text.le_antisymm (hfirst f hf).1 hle)
          rw [entry?_cons, if_pos rfl, hnone]
        · rw [entry?_cons, entry?_cons, if_neg hname, if_neg hname, ih hrest]

theorem mem_changeEntry {f : Text × Node α} (hf : f ∈ changeEntry name change entries) :
    f.1 = name ∨ f ∈ entries := by
  induction entries with
  | nil => exact .inl (by simp_all [changeEntry])
  | cons e es ih =>
      rw [changeEntry] at hf
      split at hf
      · rcases List.mem_cons.mp hf with rfl | hf
        · exact .inl rfl
        · exact .inr (List.mem_cons_of_mem e hf)
      · split at hf
        · rcases List.mem_cons.mp hf with rfl | hf
          · exact .inl rfl
          · exact .inr hf
        · rcases List.mem_cons.mp hf with rfl | hf
          · exact .inr List.mem_cons_self
          · rcases ih hf with h | h
            · exact .inl h
            · exact .inr (List.mem_cons_of_mem e h)

theorem pairwise_changeEntry (h : entries.Pairwise Before) :
    (changeEntry name change entries).Pairwise Before := by
  induction entries with
  | nil => simp [changeEntry]
  | cons e es ih =>
      obtain ⟨hfirst, hrest⟩ := List.pairwise_cons.mp h
      rw [changeEntry]
      split
      · rename_i hname
        refine List.pairwise_cons.mpr ⟨fun f hf => ?_, hrest⟩
        obtain ⟨hef, hne⟩ := hfirst f hf
        exact hname ▸ ⟨hef, hne⟩
      · rename_i hname
        split
        · rename_i hle
          refine List.pairwise_cons.mpr ⟨fun f hf => ?_, h⟩
          rcases List.mem_cons.mp hf with rfl | hf
          · exact ⟨hle, Ne.symm hname⟩
          · obtain ⟨hef, -⟩ := hfirst f hf
            refine ⟨Text.le_trans hle hef, ?_⟩
            rintro rfl
            exact hname (Text.le_antisymm hef hle)
        · rename_i hle
          have hename : Text.le e.1 name := (Text.le_total e.1 name).resolve_right hle
          refine List.pairwise_cons.mpr ⟨fun f hf => ?_, ih hrest⟩
          rcases mem_changeEntry hf with hfname | hf
          · rw [Before, hfname]
            exact ⟨hename, hname⟩
          · exact hfirst f hf

end Entries

/-! ## Putting at a place -/

theorem get?_folder_cons (entries : List (Text × Node α)) (name : Text) (place : List Text) :
    (Node.folder entries).get? (name :: place) =
      Option.bind ( entry? name entries) (·.get? place) := by
  rw [get?]
  cases entry? name entries <;> rfl

theorem get?_append {n m : Node α} {place : List Text} (h : n.get? place = some m)
    (more : List Text) : n.get? (place ++ more) = m.get? more := by
  induction place generalizing n with
  | nil =>
      cases h
      rfl
  | cons name place ih =>
      cases n with
      | file content => cases h
      | folder entries =>
          rw [get?_folder_cons] at h
          rw [List.cons_append, get?_folder_cons]
          obtain ⟨k, hentry, hk⟩ := Option.bind_eq_some_iff.mp h
          rw [hentry, Option.bind_some, ih hk]

theorem Ordered.get? {n m : Node α} (h : n.Ordered) {place : List Text}
    (hm : n.get? place = some m) : m.Ordered := by
  intro q entries hentries
  refine h (place ++ q) entries ?_
  rw [get?_append hm, hentries]

/-- What there is to say of a tree after a node without entries is put at a place. -/
structure Placed (place : List Text) (new n n' : Node α) : Prop where
  at_place : n'.get? place = some new
  files : ∀ q content, q ≠ place →
    (n'.get? q = some (.file content) ↔ n.get? q = some (.file content))
  folders : ∀ q, q ≠ place → ((∃ entries, n'.get? q = some (.folder entries)) ↔
    ∃ entries, n.get? q = some (.folder entries))
  ordered : n.Ordered → n'.Ordered

/-- A node that holds no other nodes. -/
def IsBare : Node α → Prop
  | .file _ => True
  | .folder entries => entries = []

theorem get?_cons_of_isBare {n : Node α} (h : n.IsBare) (name : Text) (place : List Text) :
    n.get? (name :: place) = none := by
  cases n with
  | file content => rfl
  | folder entries =>
      rw [IsBare] at h
      rw [h, get?_folder_cons]
      rfl

theorem ordered_of_isBare {n : Node α} (h : n.IsBare) : n.Ordered := by
  intro place entries hentries
  cases place with
  | cons name place => rw [get?_cons_of_isBare h] at hentries; cases hentries
  | nil =>
      cases hentries
      rw [IsBare] at h
      rw [h]
      exact .nil

section Change

variable {name : Text} {entries : List (Text × Node α)} {change : Option (Node α) → Node α}
  {new : Node α}

theorem ordered_folder_iff (hentries : entries.Pairwise Before) :
    (Node.folder entries).Ordered ↔ ∀ name n, entry? name entries = some n → n.Ordered := by
  constructor
  · intro h name n hentry place more hmore
    refine h (name :: place) more ?_
    rw [get?_folder_cons, hentry]
    exact hmore
  · intro h place more hmore
    cases place with
    | nil =>
        cases hmore
        exact hentries
    | cons name place =>
        rw [get?_folder_cons] at hmore
        obtain ⟨n, hentry, hmore⟩ := Option.bind_eq_some_iff.mp hmore
        exact h name n hentry place more hmore

theorem ordered_changeEntry (h : (Node.folder entries).Ordered)
    (hchange : (change <| entry? name entries).Ordered) :
    (Node.folder (changeEntry name change entries)).Ordered := by
  have hentries := h [] entries rfl
  rw [ordered_folder_iff (pairwise_changeEntry hentries)]
  intro other n hn
  by_cases hother : other = name
  · rw [hother, entry?_changeEntry_self hentries] at hn
    cases hn
    exact hchange
  · rw [entry?_changeEntry_of_ne hother] at hn
    exact (ordered_folder_iff hentries).mp h other n hn

theorem get?_changeEntry_of_ne {other : Text} (h : other ≠ name) (place : List Text) :
    (Node.folder (changeEntry name change entries)).get? (other :: place) =
      (Node.folder entries).get? (other :: place) := by
  rw [get?_folder_cons, get?_folder_cons, entry?_changeEntry_of_ne h]

theorem get?_changeEntry_self (hentries : entries.Pairwise Before) (place : List Text) :
    (Node.folder (changeEntry name change entries)).get? (name :: place) =
      (change <| entry? name entries).get? place := by
  rw [get?_folder_cons, entry?_changeEntry_self hentries]
  rfl

/-- Below an entry that is new, or was a file, nothing was found and nothing is. -/
theorem get?_changeEntry_of_isBare (hbare : new.IsBare) (hentries : entries.Pairwise Before)
    (hthere : ∀ n, entry? name entries = some n → n.isFolder = false) {place : List Text}
    (hplace : place ≠ [name]) (hne : place ≠ []) :
    (Node.folder (changeEntry name (fun _ => new) entries)).get? place =
      (Node.folder entries).get? place := by
  obtain ⟨other, place, rfl⟩ := List.exists_cons_of_ne_nil hne
  by_cases hother : other = name
  · subst hother
    obtain ⟨a, place, rfl⟩ : ∃ a more, place = a :: more :=
      List.exists_cons_of_ne_nil fun hnil => hplace (by rw [hnil])
    rw [get?_changeEntry_self hentries, get?_cons_of_isBare hbare, get?_folder_cons]
    cases hentry : entry? other entries with
    | none => rfl
    | some n =>
        cases n with
        | file content => rfl
        | folder more => exact absurd (hthere _ hentry) (by simp [isFolder])
  · exact get?_changeEntry_of_ne hother place

/-- An entry that is new, or was a file, takes the new node. -/
theorem placed_entry (hbare : new.IsBare) (hentries : entries.Pairwise Before)
    (hthere : ∀ n, entry? name entries = some n → n.isFolder = false) :
    Placed [name] new (.folder entries) (.folder (changeEntry name (fun _ => new) entries)) := by
  constructor
  case at_place => rw [get?_changeEntry_self hentries, get?]
  case files =>
    intro q content hq
    by_cases hne : q = []
    · simp [hne, get?]
    · rw [get?_changeEntry_of_isBare hbare hentries hthere hq hne]
  case folders =>
    intro q hq
    by_cases hne : q = []
    · rw [hne]
      exact iff_of_true ⟨_, by rw [get?]⟩ ⟨_, by rw [get?]⟩
    · rw [get?_changeEntry_of_isBare hbare hentries hthere hq hne]
  case ordered =>
    intro h
    exact ordered_changeEntry h (ordered_of_isBare hbare)

/-- What holds of an entry holds of the folder. -/
theorem Placed.entry {place : List Text} {n : Node α} (hentries : entries.Pairwise Before)
    (hentry : entry? name entries = some n) (h : Placed place new n (change (some n))) :
    Placed (name :: place) new (.folder entries) (.folder (changeEntry name change entries)) := by
  have hnew (q : List Text) : (Node.folder (changeEntry name change entries)).get? (name :: q) =
      (change (some n)).get? q := by rw [get?_changeEntry_self hentries, hentry]
  have hold (q : List Text) : (Node.folder entries).get? (name :: q) = n.get? q := by
    rw [get?_folder_cons, hentry, Option.bind_some]
  constructor
  case at_place => rw [hnew, h.at_place]
  case files =>
    intro q content hq
    cases q with
    | nil => simp [get?]
    | cons other q =>
        by_cases hother : other = name
        · subst hother
          rw [hnew, hold]
          exact h.files q content fun heq => hq (by rw [heq])
        · rw [get?_changeEntry_of_ne hother]
  case folders =>
    intro q hq
    cases q with
    | nil => exact iff_of_true ⟨_, by rw [get?]⟩ ⟨_, by rw [get?]⟩
    | cons other q =>
        by_cases hother : other = name
        · subst hother
          rw [hnew, hold]
          exact h.folders q fun heq => hq (by rw [heq])
        · rw [get?_changeEntry_of_ne hother]
  case ordered =>
    intro hfolder
    refine ordered_changeEntry hfolder ?_
    rw [hentry]
    exact h.ordered ((ordered_folder_iff hentries).mp hfolder name n hentry)

end Change

theorem placed_put {root new : Node α} {parent : List Text} {name : Text}
    {entries : List (Text × Node α)} (hordered : root.Ordered) (hbare : new.IsBare)
    (hparent : root.get? parent = some (.folder entries))
    (hthere : ∀ n, entry? name entries = some n → n.isFolder = false) :
    Placed (parent ++ [name]) new root (put (parent ++ [name]) new (some root)) := by
  induction parent generalizing root with
  | nil =>
      cases hparent
      exact placed_entry hbare (hordered [] entries rfl) hthere
  | cons first parent ih =>
      cases root with
      | file content => cases hparent
      | folder more =>
          have hmore := hordered [] more rfl
          rw [get?_folder_cons] at hparent
          obtain ⟨n, hentry, hn⟩ := Option.bind_eq_some_iff.mp hparent
          have hn' := ih ((ordered_folder_iff hmore).mp hordered first n hentry) hn
          exact hn'.entry hmore hentry

end StaticSite.Node
