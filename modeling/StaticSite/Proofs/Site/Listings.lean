import StaticSite.Proofs.Site.Discovery

/-!
# Listings are determined by what they list

The pages of a site, the files below a folder, and the entries of a folder are listed in order and
once each, so that two listings with the same members are the same list.
-/

namespace StaticSite

open Node Path

/-! ## Places in order -/

namespace Path

variable {p q r : List Text}

theorem partsLe_total (p q : List Text) : partsLe p q ∨ partsLe q p := by
  induction p generalizing q with
  | nil => exact .inl rfl
  | cons a p ih =>
      cases q with
      | nil => exact .inr rfl
      | cons b q =>
          rw [partsLe, partsLe]
          by_cases hab : a = b
          · rw [if_pos hab, if_pos hab.symm]
            exact ih q
          · rw [if_neg hab, if_neg (Ne.symm hab)]
            exact Text.le_total a b

theorem partsLe_antisymm (h : partsLe p q) (h' : partsLe q p) : p = q := by
  induction p generalizing q with
  | nil =>
      cases q with
      | nil => rfl
      | cons b q => cases h'
  | cons a p ih =>
      cases q with
      | nil => cases h
      | cons b q =>
          rw [partsLe] at h h'
          by_cases hab : a = b
          · rw [if_pos hab] at h
            rw [if_pos hab.symm] at h'
            rw [hab, ih h h']
          · rw [if_neg hab] at h
            rw [if_neg (Ne.symm hab)] at h'
            exact absurd (Text.le_antisymm h h') hab

theorem partsLe_trans (h : partsLe p q) (h' : partsLe q r) : partsLe p r := by
  induction p generalizing q r with
  | nil => rfl
  | cons a p ih =>
      cases q with
      | nil => cases h
      | cons b q =>
          cases r with
          | nil => cases h'
          | cons c r =>
              rw [partsLe] at h h' ⊢
              by_cases hab : a = b
              · subst hab
                rw [if_pos rfl] at h
                by_cases hac : a = c
                · rw [if_pos hac] at h' ⊢
                  exact ih h h'
                · rw [if_neg hac] at h' ⊢
                  exact h'
              · rw [if_neg hab] at h
                by_cases hbc : b = c
                · subst hbc
                  rw [if_neg hab]
                  exact h
                · rw [if_neg hbc] at h'
                  have hac : a ≠ c := by
                    rintro rfl
                    exact hab (Text.le_antisymm h h')
                  rw [if_neg hac]
                  exact Text.le_trans h h'

end Path

theorem pairwise_insertPlace {place : List Text} {places : List (List Text)}
    (h : places.Pairwise fun p q => partsLe p q) :
    (insertPlace place places).Pairwise fun p q => partsLe p q := by
  induction places with
  | nil => exact List.pairwise_singleton _ place
  | cons p places ih =>
      obtain ⟨hfirst, hrest⟩ := List.pairwise_cons.mp h
      rw [insertPlace]
      split
      · rename_i hle
        refine List.pairwise_cons.mpr ⟨fun q hq => ?_, h⟩
        rcases List.mem_cons.mp hq with rfl | hq
        · exact hle
        · exact partsLe_trans hle (hfirst q hq)
      · rename_i hle
        refine List.pairwise_cons.mpr ⟨fun q hq => ?_, ih hrest⟩
        rcases mem_insertPlace.mp hq with rfl | hq
        · exact (partsLe_total _ p).resolve_left hle
        · exact hfirst q hq

theorem pairwise_sortPlaces (places : List (List Text)) :
    (sortPlaces places).Pairwise fun p q => partsLe p q := by
  induction places with
  | nil => exact .nil
  | cons place places ih => exact pairwise_insertPlace ih

theorem nodup_insertPlace {place : List Text} {places : List (List Text)}
    (hplace : place ∉ places) (h : places.Nodup) : (insertPlace place places).Nodup := by
  induction places with
  | nil => exact List.pairwise_singleton _ place
  | cons p places ih =>
      rw [List.mem_cons, not_or] at hplace
      obtain ⟨hp, hplaces⟩ := List.nodup_cons.mp h
      rw [insertPlace]
      split
      · exact List.nodup_cons.mpr ⟨by simpa using hplace, h⟩
      · refine List.nodup_cons.mpr ⟨fun hmem => ?_, ih hplace.2 hplaces⟩
        exact (mem_insertPlace.mp hmem).elim (Ne.symm hplace.1) hp

theorem nodup_sortPlaces {places : List (List Text)} (h : places.Nodup) :
    (sortPlaces places).Nodup := by
  induction places with
  | nil => exact .nil
  | cons place places ih =>
      obtain ⟨hplace, hplaces⟩ := List.nodup_cons.mp h
      exact nodup_insertPlace (fun hmem => hplace (mem_sortPlaces.mp hmem)) (ih hplaces)

/-- Two listings of the files below folders that have the same members are the same. -/
theorem listedBelow_congr {t u : SiteTree} {p q : Path} {n m : Node Content} (hn : n.Ordered)
    (hm : m.Ordered) (ht : t.look p = .ok n) (hu : u.look q = .ok m)
    {places places' : List (List Text)} (hplaces : listedBelow t p = .ok places)
    (hplaces' : listedBelow u q = .ok places') (h : ∀ place, place ∈ places ↔ place ∈ places') :
    places = places' := by
  have hlisted {t : SiteTree} {p : Path} {n : Node Content} {places : List (List Text)}
      (hn : n.Ordered) (ht : t.look p = .ok n) (hplaces : listedBelow t p = .ok places) :
      places.Nodup ∧ places.Pairwise fun p q => partsLe p q := by
    obtain ⟨found, hfound, hplaces⟩ := bind_eq_ok_iff.mp hplaces
    obtain ⟨kept, hkept, hplaces⟩ := bind_eq_ok_iff.mp hplaces
    cases hplaces
    exact ⟨nodup_sortPlaces (nodup_filesSeen hn ht hfound hkept), pairwise_sortPlaces kept⟩
  obtain ⟨hnodup, hsorted⟩ := hlisted hn ht hplaces
  obtain ⟨hnodup', hsorted'⟩ := hlisted hm hu hplaces'
  exact eq_of_pairwise_of_mem_iff (fun _ _ => partsLe_antisymm) hsorted hsorted' hnodup hnodup' h

/-- Two discoveries that come to files at the same places of pages give the same pages. -/
theorem Discovered.congr {t u : SiteTree} {root root' : Path} {componentsDir : Text}
    {entries entries' : List (Text × Node Content)} {pages pages' : List Text}
    (ht : Discovered t root componentsDir entries pages)
    (hu : Discovered u root' componentsDir entries' pages')
    (h : ∀ place, suffix (place.getLast?.getD []) = pageSuffix →
      ((∃ content, Reached t root componentsDir entries place (.file content)) ↔
        ∃ content, Reached u root' componentsDir entries' place (.file content))) :
    pages = pages' := by
  have hanti (s t : Text) (hst : Text.le s t ∧ s ≠ t) (hts : Text.le t s ∧ t ≠ s) : s = t :=
    Text.le_antisymm hst.1 hts.1
  refine eq_of_pairwise_of_mem_iff hanti ht.ordered hu.ordered (ht.ordered.imp And.right)
    (hu.ordered.imp And.right) fun page => ?_
  rw [ht.mem, hu.mem]
  constructor
  · rintro ⟨place, content, rfl, hreached, hsuffix⟩
    obtain ⟨content', hreached'⟩ := (h place hsuffix).mp ⟨content, hreached⟩
    exact ⟨place, content', rfl, hreached', hsuffix⟩
  · rintro ⟨place, content, rfl, hreached, hsuffix⟩
    obtain ⟨content', hreached'⟩ := (h place hsuffix).mpr ⟨content, hreached⟩
    exact ⟨place, content', rfl, hreached', hsuffix⟩

/-! ## Trees with the same files -/

namespace Node

variable {α : Type} {n m a b : Node α} {place : List Text}

/-- Two trees have the same folders and the same files. -/
structure Alike (n m : Node α) : Prop where
  forth : n.KeepsKinds m
  back : m.KeepsKinds n
  files : ∀ q content, n.get? q = some (.file content) ↔ m.get? q = some (.file content)

theorem Alike.below (h : n.Alike m) (ha : n.get? place = some a) (hb : m.get? place = some b) :
    a.Alike b := by
  constructor
  case forth =>
    intro q k hk
    rw [← get?_append ha] at hk
    rw [← get?_append hb]
    exact h.forth _ k hk
  case back =>
    intro q k hk
    rw [← get?_append hb] at hk
    rw [← get?_append ha]
    exact h.back _ k hk
  case files =>
    intro q content
    rw [← get?_append ha, ← get?_append hb]
    exact h.files _ content

theorem get?_singleton_eq_some_iff {entries : List (Text × Node α)} (h : entries.Pairwise Before)
    {name : Text} : (Node.folder entries).get? [name] = some a ↔ (name, a) ∈ entries := by
  rw [← entry?_eq_some_iff h, get?_folder_cons]
  cases entry? name entries <;> rfl

mutual

/-- Trees in order that are alike are the same. -/
theorem Alike.eq : (n : Node α) → ∀ {m}, n.Ordered → m.Ordered → n.Alike m → n = m
  | .file content, m, _, _, h => by
      have hm := (h.files [] content).mp rfl
      exact (Option.some.inj hm).symm
  | .folder entries, m, hn, hm, h => by
      obtain ⟨k, hk, hkind⟩ := h.forth [] _ rfl
      obtain rfl : m = k := Option.some.inj hk
      obtain ⟨entries', rfl⟩ := exists_of_isFolder hkind
      have hes : entries.Pairwise Before := hn [] entries rfl
      have hes' : entries'.Pairwise Before := hm [] entries' rfl
      have hsame {name : Text} {a b : Node α} (ha : (name, a) ∈ entries)
          (hb : (name, b) ∈ entries') : a = b := by
        have ha' := (get?_singleton_eq_some_iff hes).mpr ha
        have hb' := (get?_singleton_eq_some_iff hes').mpr hb
        exact Alike.eq_of_mem entries _ ha (hn.get? ha') (hm.get? hb') (h.below ha' hb')
      have hanti (e f : Text × Node α) (hef : Before e f) (hfe : Before f e) : e = f :=
        absurd (Text.le_antisymm hef.1 hfe.1) hef.2
      have hnodup {es : List (Text × Node α)} (h : es.Pairwise Before) : es.Nodup :=
        h.imp fun hef heq => hef.2 (congrArg Prod.fst heq)
      refine congrArg Node.folder ?_
      refine eq_of_pairwise_of_mem_iff hanti hes hes' (hnodup hes) (hnodup hes') fun e => ?_
      obtain ⟨name, a⟩ := e
      constructor
      · intro ha
        obtain ⟨b, hb, -⟩ := h.forth [name] a ((get?_singleton_eq_some_iff hes).mpr ha)
        have hb := (get?_singleton_eq_some_iff hes').mp hb
        exact hsame ha hb ▸ hb
      · intro hb
        obtain ⟨c, hc, -⟩ := h.back [name] a ((get?_singleton_eq_some_iff hes').mpr hb)
        have hc := (get?_singleton_eq_some_iff hes).mp hc
        exact hsame hc hb ▸ hc

theorem Alike.eq_of_mem : (entries : List (Text × Node α)) → ∀ e ∈ entries, ∀ {m}, e.2.Ordered →
    m.Ordered → e.2.Alike m → e.2 = m
  | (_, n) :: es, e, he, m, hn, hm, h => by
      rcases List.mem_cons.mp he with rfl | he
      · exact Alike.eq n hn hm h
      · exact Alike.eq_of_mem es e he hn hm h

end

end Node

end StaticSite
