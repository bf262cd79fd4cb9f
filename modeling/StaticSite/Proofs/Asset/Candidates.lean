import StaticSite.Proofs.Asset.Loaded
import StaticSite.Proofs.Component.Reach
import StaticSite.Proofs.Files.Proper

/-!
# Where assets are looked for

An asset is looked for at its candidates and nowhere else. A candidate is one of the two roots with
further parts behind it, unless the reference begins with two slashes: only one of them is taken
away, and what is left is a path from the root of the file system, whatever it is joined to.
-/

namespace StaticSite

open Path

namespace Path

/-- The parts of a path with its anchor as the first of them. -/
def allParts (p : Path) : List Text :=
  (if p.isAbsolute then [p.anchor.text] else []) ++ p.parts

theorem allParts_prefix_below (p : Path) (parts : List Text) :
    p.allParts <+: (p.below parts).allParts := by
  refine ⟨parts, ?_⟩
  have hanchor : (p.below parts).isAbsolute = p.isAbsolute := rfl
  rw [allParts, allParts, hanchor, parts_below, List.append_assoc]
  rfl

end Path

namespace Asset.Roots

variable {r : Roots} {reference rest : Text} {p : Path}

/-- All the parts of one of the two roots are the first parts of the path. -/
def Holds (r : Roots) (p : Path) : Prop :=
  r.root.allParts <+: p.allParts ∨ r.projectRoot.allParts <+: p.allParts

instance (r : Roots) (p : Path) : Decidable (r.Holds p) :=
  inferInstanceAs (Decidable (_ ∨ _))

/-- What is left of a reference with two slashes at its front, when one is taken away, is held by a
root. -/
def Confines (r : Roots) (reference : Text) : Prop :=
  ∀ rest, reference = '/' :: '/' :: rest → r.Holds (ofText ('/' :: rest))

theorem holds_inRoot (h : (ofText reference).isAbsolute = false) :
    r.Holds (r.inRoot reference) := by
  rw [inRoot, child_of_relative h]
  exact .inl (allParts_prefix_below _ _)

theorem holds_inAssets (hassets : (ofText r.assetsDir).isAbsolute = false)
    (h : (ofText reference).isAbsolute = false) : r.Holds (r.inAssets reference) := by
  rw [inAssets, child_of_relative h, child_of_relative hassets, below_below]
  exact .inl (allParts_prefix_below _ _)

theorem holds_inProjectAssets (hassets : (ofText r.assetsDir).isAbsolute = false)
    (h : (ofText reference).isAbsolute = false) : r.Holds (r.inProjectAssets reference) := by
  have hsrc : (ofText "src").isAbsolute = false := by decide
  rw [inProjectAssets, child_of_relative h, child_of_relative hassets, child_of_relative hsrc,
    below_below, below_below]
  exact .inr (allParts_prefix_below _ _)

/-- Scripts have the candidates of stylesheets, in another order. -/
theorem mem_scriptCandidates_iff :
    p ∈ r.scriptCandidates reference ↔ p ∈ r.stylesheetCandidates reference := by
  unfold scriptCandidates stylesheetCandidates
  split
  · simp only [List.mem_cons, List.not_mem_nil, or_false]
    exact or_comm.trans or_assoc
  · rfl

/-- A path from the root of the file system replaces whatever it is joined to. -/
theorem stylesheetCandidates_slash_slash (r : Roots) (rest : Text) :
    r.stylesheetCandidates ('/' :: '/' :: rest) = List.replicate 3 (ofText ('/' :: rest)) := by
  have habsolute : (ofText ('/' :: rest)).isAbsolute := isAbsolute_ofText_iff.mpr rfl
  simp only [stylesheetCandidates, inAssets, inRoot, inProjectAssets,
    child_of_isAbsolute _ habsolute]
  rfl

theorem stylesheetCandidates_of_head (h : reference.head? ≠ some '/') :
    r.stylesheetCandidates reference = [r.inRoot reference] := by
  unfold stylesheetCandidates
  split
  · exact absurd rfl h
  · rfl

theorem holds_of_mem_stylesheetCandidates (hassets : (ofText r.assetsDir).isAbsolute = false)
    (hreference : ∀ rest, reference ≠ '/' :: '/' :: rest)
    (hp : p ∈ r.stylesheetCandidates reference) : r.Holds p := by
  by_cases hslash : reference.head? = some '/'
  · obtain ⟨rest, rfl⟩ := List.head?_eq_some_iff.mp hslash
    have hrelative : (ofText rest).isAbsolute = false := by
      rw [isAbsolute_ofText_eq_false_iff]
      intro hrest
      obtain ⟨more, rfl⟩ := List.head?_eq_some_iff.mp hrest
      exact hreference more rfl
    simp only [stylesheetCandidates, List.mem_cons, List.not_mem_nil, or_false] at hp
    rcases hp with rfl | rfl | rfl
    · exact holds_inAssets hassets hrelative
    · exact holds_inRoot hrelative
    · exact holds_inProjectAssets hassets hrelative
  · rw [stylesheetCandidates_of_head hslash] at hp
    rw [List.mem_singleton.mp hp]
    exact holds_inRoot (isAbsolute_ofText_eq_false_iff.mpr hslash)

theorem stylesheetCandidates_held_iff (hassets : (ofText r.assetsDir).isAbsolute = false)
    (reference : Text) :
    (∀ p ∈ r.stylesheetCandidates reference, r.Holds p) ↔ r.Confines reference := by
  constructor
  · rintro h rest rfl
    apply h
    rw [stylesheetCandidates_slash_slash]
    exact List.mem_cons_self
  · intro h p hp
    by_cases hslashes : ∃ rest, reference = '/' :: '/' :: rest
    · obtain ⟨rest, rfl⟩ := hslashes
      rw [stylesheetCandidates_slash_slash] at hp
      rw [List.eq_of_mem_replicate hp]
      exact h rest rfl
    · rw [not_exists] at hslashes
      exact holds_of_mem_stylesheetCandidates hassets hslashes hp

end Asset.Roots

/-! ## Only candidates are looked at -/

namespace Engine

/-- Over two trees the path leads to the same, as far as the machine lets it be looked at and read.
-/
def Agrees (t u : SiteTree) (p : Path) : Prop := t.look p = u.look p ∧ t.read p = u.read p

/-- The action does the same over any two trees in which the paths of which `P` holds lead to the
same. -/
def LooksOnly {α : Type} (P : Path → Prop) (act : Engine α) : Prop :=
  ∀ t u : SiteTree, (∀ p, P p → Agrees t u p) → ∀ s, act.exec t s = act.exec u s

namespace LooksOnly

variable {α β : Type} {P : Path → Prop} {act : Engine α} {p : Path}

theorem pure (a : α) : LooksOnly P (Pure.pure a) := fun _ _ _ _ => rfl

theorem throw (fault : Fault) : LooksOnly P (MonadExcept.throw fault : Engine α) :=
  fun _ _ _ _ => rfl

theorem record (level : Level) (logger : Logger) (message : Text) :
    LooksOnly P (Engine.record level logger message) :=
  fun _ _ _ _ => rfl

theorem mono {Q : Path → Prop} (h : LooksOnly P act) (hmore : ∀ p, P p → Q p) :
    LooksOnly Q act :=
  fun t u hagree => h t u fun p hp => hagree p (hmore p hp)

/-- What comes after need only be so for results that the action can have. -/
theorem bind {next : α → Engine β} (h : LooksOnly P act)
    (hnext : ∀ a, (∃ files s, (act.exec files s).1 = .ok a) → LooksOnly P (next a)) :
    LooksOnly P (act >>= next) := by
  intro t u hagree s
  have hsame := h t u hagree s
  cases hresult : (act.exec t s).1 with
  | ok a =>
      rw [exec_bind_of_ok hresult, exec_bind_of_ok (hsame ▸ hresult), hsame]
      exact hnext a ⟨t, s, hresult⟩ t u hagree _
  | error fault =>
      rw [exec_bind_of_error hresult, exec_bind_of_error (hsame ▸ hresult), hsame]

theorem attempt (h : LooksOnly P act) : LooksOnly P (Engine.attempt act) := by
  intro t u hagree s
  rw [exec_attempt, exec_attempt, h t u hagree s]

theorem seen_congr {t u : SiteTree} (h : Agrees t u p) : seen t p = seen u p := by
  rw [seen, seen, h.1]

theorem isFile (hp : P p) : LooksOnly P (Engine.isFile p) := by
  intro t u hagree s
  rw [looks_isFile s, looks_isFile s, seen_congr (hagree p hp)]

theorem readText (encoding : Text.Encoding) (hp : P p) :
    LooksOnly P (Engine.readText encoding p) := by
  intro t u hagree s
  have htext : textOf t encoding p = textOf u encoding p := by
    rw [textOf, textOf, contained, contained, opened, opened, (hagree p hp).2]
  rw [looks_readText encoding s, looks_readText encoding s, htext]

end LooksOnly

end Engine

namespace Asset

open Engine

variable {ps : List Path} {p : Path}

theorem mem_of_firstFile? {files : SiteTree} {s : Session}
    (h : ((firstFile? ps).exec files s).1 = .ok (some p)) : p ∈ ps := by
  induction ps generalizing s with
  | nil => cases h
  | cons q ps ih =>
      rw [firstFile?] at h
      cases hfile : ((isFile q).exec files s).1 with
      | error fault =>
          rw [exec_bind_of_error hfile] at h
          cases h
      | ok there =>
          rw [exec_bind_of_ok hfile] at h
          cases there with
          | true =>
              cases h
              exact List.mem_cons_self
          | false => exact List.mem_cons_of_mem q (ih h)

theorem looksOnly_firstFile? (ps : List Path) : LooksOnly (· ∈ ps) (firstFile? ps) := by
  induction ps with
  | nil => exact .pure none
  | cons p ps ih =>
      apply LooksOnly.bind (.isFile List.mem_cons_self)
      rintro there -
      cases there with
      | true => exact .pure (some p)
      | false => exact ih.mono fun q hq => List.mem_cons_of_mem p hq

theorem looksOnly_read? (reference : Text) (ps : List Path) :
    LooksOnly (· ∈ ps) (read? reference ps) := by
  have hload : LooksOnly (· ∈ ps) (do readText .utf8 (← locate reference ps)) := by
    rw [locate, bind_assoc]
    apply (looksOnly_firstFile? ps).bind
    rintro found ⟨files, s, hfound⟩
    cases found with
    | none => exact .bind (.throw _) fun p hp => absurd hp (by simp)
    | some p =>
        rw [pure_bind]
        exact .readText .utf8 (mem_of_firstFile? hfound)
  apply hload.attempt.bind
  rintro outcome -
  cases outcome with
  | ok s => exact .pure _
  | error fault =>
      cases fault <;> first
        | exact .throw _
        | exact .bind (.record _ _ _) fun _ _ => .pure none

theorem looksOnly_inlineLink (r : Roots) {tag reference : Text} (h : href? tag = some reference) :
    LooksOnly (· ∈ r.stylesheetCandidates reference) (inlineLink r tag) := by
  unfold inlineLink
  rw [h]
  simp only
  split
  · exact .pure tag
  · exact (looksOnly_read? reference _).bind fun _ _ => .pure _

theorem looksOnly_inlineScript (r : Roots) (markers : List Text) (reference tag : Text) :
    LooksOnly (· ∈ r.scriptCandidates reference) (inlineScript r markers reference tag) := by
  unfold inlineScript
  split
  · exact .pure tag
  · exact (looksOnly_read? reference _).bind fun _ _ => .pure _

/-- A reference in a link or a script is looked for at its candidates only, and these are all held
by a root unless the reference begins with two slashes: then they are all held if and only if what
is left of it without the first slash is. -/
theorem candidates_held (r : Roots) (reference : Text)
    (hassets : (ofText r.assetsDir).isAbsolute = false) :
    ((∀ p ∈ r.stylesheetCandidates reference, r.Holds p) ↔ r.Confines reference) ∧
    ((∀ p ∈ r.scriptCandidates reference, r.Holds p) ↔ r.Confines reference) ∧
    (∀ tag, href? tag = some reference →
      LooksOnly (· ∈ r.stylesheetCandidates reference) (inlineLink r tag)) ∧
    ∀ markers tag,
      LooksOnly (· ∈ r.scriptCandidates reference) (inlineScript r markers reference tag) := by
  have hstylesheet := r.stylesheetCandidates_held_iff hassets reference
  refine ⟨hstylesheet, ?_, fun tag => looksOnly_inlineLink r, fun markers tag => ?_⟩
  · simp only [Roots.mem_scriptCandidates_iff]
    exact hstylesheet
  · exact looksOnly_inlineScript r markers reference tag

def blogRoots : Roots := Roots.of (ofText "site/src") none defaultAssetsDir

theorem candidates_held_main :
    (ofText blogRoots.assetsDir).isAbsolute = false ∧
    (∀ p ∈ blogRoots.stylesheetCandidates "/styles/main.css", blogRoots.Holds p) ∧
    ∀ p ∈ blogRoots.scriptCandidates "/styles/main.css", blogRoots.Holds p := by
  have hassets : (ofText blogRoots.assetsDir).isAbsolute = false := by decide
  obtain ⟨hstylesheet, hscript, -, -⟩ := candidates_held blogRoots "/styles/main.css" hassets
  have hconfines : blogRoots.Confines "/styles/main.css" := by
    intro rest heq
    cases heq
  exact ⟨hassets, hstylesheet.mpr hconfines, hscript.mpr hconfines⟩

def hostFiles : SiteTree :=
  ⟨.folder [("host", .folder [("x.css", textFile "p")]), ("site", .folder [])], []⟩

/-- A reference to a host is looked for at the root of the file system, outside both roots, and the
file that is there is put into the page. -/
theorem candidates_lead_out :
    (ofText blogRoots.assetsDir).isAbsolute = false ∧
    (∃ p ∈ blogRoots.stylesheetCandidates "//host/x.css", ¬blogRoots.Holds p) ∧
    (∃ p ∈ blogRoots.scriptCandidates "//host/x.css", ¬blogRoots.Holds p) ∧
    ((inlineLink blogRoots "<link href=\"//host/x.css\">").exec hostFiles .start).1 =
      .ok (styleElement "p") := by
  refine ⟨by decide, ⟨ofText "/host/x.css", by decide, by decide⟩,
    ⟨ofText "/host/x.css", by decide, by decide⟩, rfl⟩

end Asset

end StaticSite
