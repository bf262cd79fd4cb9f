import StaticSite.Files.Pattern
import StaticSite.Proofs.Compile.Ends
import StaticSite.Proofs.Files.Descendants
import StaticSite.Proofs.Files.Names
import StaticSite.Proofs.Files.Walk

/-!
# What patterns select

A star and a text that means itself fit the names that end with the text. With two stars before them
they select the entries with such a name in every folder that the search comes to: it goes down
where a folder shows what it holds, and it fails only where the view of the tree does. -/

namespace StaticSite.Pattern

open Node

section Names

variable {s t : Text}

theorem isWild_cons {c : Char} : isWild (c :: s) = false ↔
    (c ≠ '*' ∧ c ≠ '?' ∧ c ≠ '[') ∧ isWild s = false := by
  simp [isWild, and_assoc]

theorem symbols_of_not_isWild (h : isWild s = false) : symbols 0 s = s.map .char := by
  induction s with
  | nil => rfl
  | cons c s ih =>
      obtain ⟨⟨hstar, hany, hset⟩, hs⟩ := isWild_cons.mp h
      rw [List.map_cons, ← ih hs, symbols]
      all_goals assumption

theorem fits_chars : fits (t.map .char) s ↔ s = t := by
  induction t generalizing s with
  | nil => simp [fits]
  | cons a t ih =>
      cases s with
      | nil => simp [fits]
      | cons c s =>
          rw [List.map_cons, fits, Bool.and_eq_true, ih, List.cons.injEq, Symbol.matches,
            beq_iff_eq, eq_comm]
          exact nofun

theorem anyEnd_iff {p : Text → Bool} : anyEnd p s ↔ ∃ t, t <:+ s ∧ p t := by
  induction s with
  | nil => simp [anyEnd]
  | cons c s ih =>
      rw [anyEnd, Bool.or_eq_true, ih]
      constructor
      · rintro (h | ⟨t, ht, h⟩)
        · exact ⟨_, List.suffix_rfl, h⟩
        · exact ⟨t, ht.trans (List.suffix_cons c s), h⟩
      · rintro ⟨t, ht, h⟩
        rcases List.suffix_cons_iff.mp ht with rfl | ht
        · exact .inl h
        · exact .inr ⟨t, ht, h⟩

/-- A star before a text that means itself fits the names that end with the text. -/
theorem matchesName_star_iff (h : isWild s = false) {name : Text} :
    matchesName ('*' :: s) name ↔ s <:+ name := by
  have hsymbols : symbols 0 ('*' :: s) = .star :: s.map .char :=
    congrArg (Symbol.star :: ·) (symbols_of_not_isWild h)
  rw [matchesName, hsymbols, fits, anyEnd_iff]
  simp [fits_chars]

/-- Without a slash, the star and the text are one part of a pattern. -/
theorem parts_star (h : '/' ∉ s) : parts ('*' :: s) = ['*' :: s] := by
  have hslash : '/' ∉ '*' :: s := by simpa using h
  have hend : ('*' :: s).getLast? ≠ some '/' := fun hlast => hslash (List.mem_of_getLast? hlast)
  have hpoint : '*' :: s ≠ ['.'] := fun heq => by simp at heq
  rw [parts, if_neg hend, List.append_nil, Path.partsOf, Text.fields_of_notMem hslash]
  simp [hpoint]

theorem isValid_star (h : isWild s = false) : isValid ['*' :: s] := by
  have hstar : '*' ∉ s := by
    intro hmem
    simp [isWild] at h
    exact (h _ hmem).1.1 rfl
  have hpart : ∀ t : Text, '*' ∉ t → Text.hasPart doubleStar t = false := by
    intro t ht
    induction t with
    | nil => rfl
    | cons c t ih =>
        rw [List.mem_cons, not_or] at ht
        rw [Text.hasPart, ih ht.2]
        simp [doubleStar, Text.startsWith, Text.after?, ht.1]
  have hstart : Text.startsWith doubleStar ('*' :: s) = false := by
    cases s with
    | nil => rfl
    | cons c s =>
        rw [List.mem_cons, not_or] at hstar
        simp [doubleStar, Text.startsWith, Text.after?, hstar.1]
  simp [isValid, Text.hasPart, hpart s hstar, hstart]

end Names

variable {ε α : Type} {view : View ε α} {n m : Node α} {place lead q : List Text} {s : Text}

/-! ## Where a search comes to -/

/-- The folders that a search comes to from a node at a place. -/
inductive Reached (view : View ε α) : List Text → Node α → List Text → Node α → Prop
  | here (place : List Text) (n : Node α) : Reached view place n place n
  | down {place lead : List Text} {name : Text} {entries es : List (Text × Node α)} {m : Node α}
      (hshows : view.shows place = .ok true) (he : (name, .folder es) ∈ entries)
      (h : Reached view (place ++ [name]) (.folder es) lead m) :
      Reached view place (.folder entries) lead m

theorem Reached.trans {deep : List Text} {k : Node α} (h : Reached view place n lead m)
    (hdeep : Reached view lead m deep k) : Reached view place n deep k := by
  induction h with
  | here => exact hdeep
  | down hshows he _ ih => exact .down hshows he (ih hdeep)

/-- A folder that is reached is the node itself or lies below it, and all folders above it show what
they hold. -/
theorem Reached.exists_below (h : Reached view place n lead m) :
    ∃ below, lead = place ++ below ∧
      (below = [] ∧ m = n ∨ (below, m) ∈ n.descendants ∧ m.isFolder) ∧
      ∀ upper, upper <+: below → upper ≠ below → view.shows (place ++ upper) = .ok true := by
  induction h with
  | here place n =>
      exact ⟨[], by simp, .inl ⟨rfl, rfl⟩, fun upper hupper hne =>
        absurd (List.prefix_nil.mp hupper) hne⟩
  | @down place lead name entries es m hshows he h ih =>
      obtain ⟨below, rfl, hthere, hupper⟩ := ih
      obtain ⟨hself, hdeep⟩ := mem_entryDescendants he
      refine ⟨name :: below, by simp, .inr ?_, fun upper hbegin hne => ?_⟩
      · rcases hthere with ⟨rfl, rfl⟩ | ⟨hmem, hfolder⟩
        · exact ⟨hself, rfl⟩
        · exact ⟨hdeep _ hmem, hfolder⟩
      · cases upper with
        | nil => simpa using hshows
        | cons first upper =>
            obtain ⟨rfl, hrest⟩ := List.cons_prefix_cons.mp hbegin
            simpa using hupper upper hrest fun heq => hne (congrArg (first :: ·) heq)

theorem Reached.get? (h : Reached view [] n lead m) (hn : n.Ordered) : n.get? lead = some m ∧
    ∀ upper, upper <+: lead → upper ≠ lead → view.shows upper = .ok true := by
  obtain ⟨below, hbelow, hthere, hupper⟩ := h.exists_below
  rw [List.nil_append] at hbelow
  subst hbelow
  refine ⟨?_, hupper⟩
  rcases hthere with ⟨rfl, rfl⟩ | ⟨hmem, -⟩
  · rfl
  · exact (get?_of_mem_descendants hn hmem).2

theorem Reached.of_get? (hn : n.get? lead = some m) (hm : m.isFolder)
    (hshows : ∀ upper, upper <+: lead → upper ≠ lead → view.shows (place ++ upper) = .ok true) :
    Reached view place n (place ++ lead) m := by
  induction lead generalizing n place with
  | nil =>
      cases hn
      rw [List.append_nil]
      exact .here place m
  | cons name lead ih =>
      obtain ⟨entries, rfl⟩ : ∃ entries, n = .folder entries := by
        cases n with
        | folder entries => exact ⟨entries, rfl⟩
        | file content => cases hn
      rw [get?_folder_cons] at hn
      obtain ⟨k, hentry, hk⟩ := Option.bind_eq_some_iff.mp hn
      have hfolder : ∃ es, k = .folder es := by
        cases k with
        | folder es => exact ⟨es, rfl⟩
        | file content =>
            cases lead with
            | nil =>
                cases hk
                cases hm
            | cons => cases hk
      obtain ⟨es, rfl⟩ := hfolder
      have hhere : view.shows place = .ok true := by
        simpa using hshows [] (List.nil_prefix) (List.cons_ne_nil name lead).symm
      refine .down hhere (mem_of_entry_eq_some hentry) ?_
      have hrest : Reached view (place ++ [name]) (.folder es) (place ++ [name] ++ lead) m := by
        refine ih hk fun upper hupper hne => ?_
        simpa using hshows (name :: upper) (List.cons_prefix_cons.mpr ⟨rfl, hupper⟩)
          fun heq => hne (List.cons.inj heq).2
      simpa using hrest

/-! ## What a search gathers -/

/-- A search gathers what `visit` gives for the nodes that it comes to, and it fails where `visit`
does, or a folder to show what it holds. -/
def Gathers (view : View ε α) (visit : List Text → Node α → Except ε (List (List Text)))
    (comes : List Text → Node α → Prop) : Except ε (List (List Text)) → Prop
  | .ok found => (∀ lead m, comes lead m → ∃ hits, visit lead m = .ok hits) ∧
      ∀ q, q ∈ found ↔ ∃ lead m hits, comes lead m ∧ visit lead m = .ok hits ∧ q ∈ hits
  | .error fault => ∃ lead m, comes lead m ∧
      (visit lead m = .error fault ∨ m.isFolder ∧ view.shows lead = .error fault)

section Gathers

variable {visit : List Text → Node α → Except ε (List (List Text))}
  {comes more : List Text → Node α → Prop} {first second : Except ε (List (List Text))}

theorem Gathers.congr (h : Gathers view visit comes first)
    (hcomes : ∀ lead m, more lead m ↔ comes lead m) : Gathers view visit more first := by
  obtain rfl : more = comes := funext fun lead => funext fun m => propext (hcomes lead m)
  exact h

theorem gathers_visit (place : List Text) (n : Node α) :
    Gathers view visit (fun lead m => lead = place ∧ m = n) (visit place n) := by
  cases hvisit : visit place n with
  | error fault => exact ⟨place, n, ⟨rfl, rfl⟩, .inl hvisit⟩
  | ok hits =>
      constructor
      · rintro _ _ ⟨rfl, rfl⟩
        exact ⟨hits, hvisit⟩
      · refine fun q => ⟨fun hq => ⟨place, n, hits, ⟨rfl, rfl⟩, hvisit, hq⟩, ?_⟩
        rintro ⟨_, _, others, ⟨rfl, rfl⟩, hothers, hq⟩
        cases hvisit.symm.trans hothers
        exact hq

theorem Gathers.append (h : Gathers view visit comes first)
    (h' : Gathers view visit more second) :
    Gathers view visit (fun lead m => comes lead m ∨ more lead m)
      (first >>= fun here => second >>= fun found => pure (here ++ found)) := by
  cases first with
  | error fault =>
      obtain ⟨lead, m, hcomes, hfault⟩ := h
      exact ⟨lead, m, .inl hcomes, hfault⟩
  | ok here =>
      cases second with
      | error fault =>
          obtain ⟨lead, m, hcomes, hfault⟩ := h'
          exact ⟨lead, m, .inr hcomes, hfault⟩
      | ok found =>
          refine ⟨fun lead m hcomes => hcomes.elim (h.1 lead m) (h'.1 lead m), fun q => ?_⟩
          rw [List.mem_append, h.2 q, h'.2 q]
          constructor
          · rintro (⟨lead, m, hits, hcomes, hq⟩ | ⟨lead, m, hits, hcomes, hq⟩)
            · exact ⟨lead, m, hits, .inl hcomes, hq⟩
            · exact ⟨lead, m, hits, .inr hcomes, hq⟩
          · rintro ⟨lead, m, hits, hcomes | hcomes, hq⟩
            · exact .inl ⟨lead, m, hits, hcomes, hq⟩
            · exact .inr ⟨lead, m, hits, hcomes, hq⟩

variable (visit)

mutual

theorem gathers_inFolders (place : List Text) : (n : Node α) →
    Gathers view visit (Reached view place n) (inFolders view visit place n)
  | .file content => by
      rw [inFolders]
      refine (gathers_visit place _).congr fun lead m => ⟨fun h => ?_, ?_⟩
      · cases h
        exact ⟨rfl, rfl⟩
      · rintro ⟨rfl, rfl⟩
        exact .here _ _
  | .folder entries => by
      rw [inFolders]
      have hhere := @gathers_visit _ _ view visit place (.folder entries)
      cases hshows : view.shows place with
      | error fault =>
          cases hvisit : visit place (.folder entries) with
          | error fault => exact ⟨_, _, .here _ _, .inl hvisit⟩
          | ok here => exact ⟨_, _, .here _ _, .inr ⟨rfl, hshows⟩⟩
      | ok shows =>
          cases shows with
          | false =>
              change Gathers view visit _ (visit place (.folder entries) >>= pure)
              rw [bind_pure]
              refine hhere.congr fun lead m => ⟨fun h => ?_, ?_⟩
              · cases h with
                | here => exact ⟨rfl, rfl⟩
                | down htrue => cases hshows.symm.trans htrue
              · rintro ⟨rfl, rfl⟩
                exact .here _ _
          | true =>
              refine (hhere.append (gathers_amongFolders place entries)).congr fun lead m => ?_
              constructor
              · intro h
                cases h with
                | here => exact .inl ⟨rfl, rfl⟩
                | down htrue he hreached => exact .inr ⟨_, _, he, hreached⟩
              · rintro (⟨rfl, rfl⟩ | ⟨name, es, he, hreached⟩)
                · exact .here _ _
                · exact .down hshows he hreached

theorem gathers_amongFolders (place : List Text) : (entries : List (Text × Node α)) →
    Gathers view visit
      (fun lead m => ∃ name es, (name, .folder es) ∈ entries ∧
        Reached view (place ++ [name]) (.folder es) lead m)
      (amongFolders view visit place entries)
  | [] => by
      refine ⟨?_, fun q => ?_⟩ <;> simp
  | (name, .file content) :: es => by
      rw [amongFolders]
      have hrest := gathers_amongFolders place es
      simpa only [List.mem_cons, Prod.mk.injEq, reduceCtorEq, and_false, false_or] using hrest
  | (name, .folder first) :: es => by
      rw [amongFolders]
      have hfirst := gathers_inFolders (place ++ [name]) (.folder first)
      refine (hfirst.append (gathers_amongFolders place es)).congr fun lead m => ?_
      constructor
      · rintro ⟨other, others, he, hreached⟩
        rcases List.mem_cons.mp he with heq | he
        · cases heq
          exact .inl hreached
        · exact .inr ⟨other, others, he, hreached⟩
      · rintro (hreached | ⟨other, others, he, hreached⟩)
        · exact ⟨name, first, List.mem_cons_self, hreached⟩
        · exact ⟨other, others, List.mem_cons_of_mem _ he, hreached⟩

end

end Gathers

/-! ## Two stars and a star -/

theorem select_doubleStar (patterns : List Text) :
    select view (doubleStar :: patterns) place n =
      inFolders view (select view patterns) place n := by
  unfold select
  rw [if_neg (by decide), if_pos rfl]

theorem select_star (hne : '*' :: s ≠ doubleStar) : select view ['*' :: s] place n =
    match n with
    | .file _ => .ok []
    | .folder entries => do
        if ← view.shows place then
          return (entries.filter fun e => matchesName ('*' :: s) e.1).map fun e => place ++ [e.1]
        else return [] := by
  have hplaces (es : List (Text × Node α)) :
      (es.mapM fun e => select view [] (place ++ [e.1]) e.2) =
      .ok (es.map fun e => [place ++ [e.1]]) := by
    induction es with
    | nil => rfl
    | cons e es ih =>
        rw [List.mapM_cons, ih]
        rfl
  have hflatten (es : List (Text × Node α)) :
      (es.map fun e => [place ++ [e.1]]).flatten = es.map fun e => place ++ [e.1] := by
    induction es <;> simp_all
  unfold select
  rw [if_neg (by simp), if_neg hne, if_pos (by simp [isWild])]
  cases n with
  | file content => rfl
  | folder entries =>
      cases view.shows place with
      | error fault => rfl
      | ok shows =>
          cases shows with
          | false => rfl
          | true =>
              simp only [bind, Except.bind, if_true, List.isEmpty_nil, Bool.true_or, Bool.true_and,
                hplaces, hflatten]

theorem mem_select_star_iff (h : isWild s = false) {hits : List (List Text)}
    (hhits : select view ['*' :: s] lead m = .ok hits) :
    q ∈ hits ↔ ∃ entries e, m = .folder entries ∧ view.shows lead = .ok true ∧ e ∈ entries ∧
      s <:+ e.1 ∧ q = lead ++ [e.1] := by
  have hdouble : '*' :: s ≠ doubleStar := by
    rintro heq
    cases heq
    cases h
  rw [select_star hdouble] at hhits
  cases m with
  | file content =>
      cases hhits
      simp
  | folder entries =>
      obtain ⟨shows, hshows, hhits⟩ := bind_eq_ok_iff.mp hhits
      cases shows with
      | false =>
          cases hhits
          simp [hshows]
      | true =>
          cases hhits
          simp [hshows, matchesName_star_iff h, and_assoc, eq_comm]

/-- Below a folder, two stars and then a star before a text that means itself select everything with
a name that ends with the text in the folders that are shown. -/
theorem mem_select_iff (hn : n.Ordered) (h : isWild s = false) {found : List (List Text)}
    (hfound : select view [doubleStar, '*' :: s] [] n = .ok found) :
    q ∈ found ↔ ∃ lead name m, q = lead ++ [name] ∧ s <:+ name ∧ n.get? q = some m ∧
      ∀ upper, upper <+: lead → view.shows upper = .ok true := by
  have hgathers := @gathers_inFolders _ _ view (select view ['*' :: s]) [] n
  rw [select_doubleStar] at hfound
  rw [hfound] at hgathers
  rw [hgathers.2 q]
  constructor
  · rintro ⟨lead, m, hits, hreached, hhits, hq⟩
    obtain ⟨entries, ⟨name, k⟩, rfl, hshows, he, hname, rfl⟩ := (mem_select_star_iff h hhits).mp hq
    obtain ⟨hlead, hupper⟩ := hreached.get? hn
    refine ⟨lead, name, k, rfl, hname, ?_, fun upper hbegin => ?_⟩
    · rw [get?_append_name hlead]
      exact entry?_of_mem (hn lead entries hlead) he
    · by_cases hne : upper = lead
      · subst hne
        exact hshows
      · exact hupper upper hbegin hne
  · rintro ⟨lead, name, m, rfl, hname, hm, hupper⟩
    obtain ⟨entries, hlead⟩ := exists_folder_of_append (List.cons_ne_nil name []) hm
    rw [get?_append_name hlead, entry?_eq_some_iff (hn lead entries hlead)] at hm
    have hreached : Reached view [] n ([] ++ lead) (.folder entries) :=
      .of_get? hlead rfl fun upper hbegin _ => hupper upper hbegin
    have hshows := hupper lead List.prefix_rfl
    obtain ⟨hits, hhits⟩ : ∃ hits, select view ['*' :: s] lead (.folder entries) = .ok hits := by
      refine ⟨_, (select_star ?_).trans (by rw [hshows]; rfl)⟩
      rintro heq
      cases heq
      cases h
    exact ⟨lead, _, hits, hreached, hhits,
      (mem_select_star_iff h hhits).mpr ⟨_, _, rfl, hshows, hm, hname, rfl⟩⟩

/-- A search that ends well was shown what each folder holds that it came to, or was not let in. -/
theorem exists_shows_of_select (h : isWild s = false) {found : List (List Text)}
    (hfound : select view [doubleStar, '*' :: s] place n = .ok found)
    (hreached : Reached view place n lead m) (hm : m.isFolder) :
    ∃ shows, view.shows lead = .ok shows := by
  have hgathers := @gathers_inFolders _ _ view (select view ['*' :: s]) place n
  rw [select_doubleStar] at hfound
  rw [hfound] at hgathers
  obtain ⟨hits, hhits⟩ := hgathers.1 lead m hreached
  have hdouble : '*' :: s ≠ doubleStar := by
    rintro heq
    cases heq
    cases h
  rw [select_star hdouble] at hhits
  cases m with
  | file content => cases hm
  | folder entries =>
      obtain ⟨shows, hshows, -⟩ := bind_eq_ok_iff.mp hhits
      exact ⟨shows, hshows⟩

/-! Each place is selected once. -/

section Once

variable {entries : List (Text × Node α)} {found : List (List Text)}

theorem exists_of_mem_amongFolders (h : isWild s = false)
    (hfound : amongFolders view (select view ['*' :: s]) place entries = .ok found)
    (hq : q ∈ found) :
    ∃ name es first rest, (name, .folder es) ∈ entries ∧ q = place ++ name :: first :: rest := by
  have hgathers := @gathers_amongFolders _ _ view (select view ['*' :: s]) place entries
  rw [hfound] at hgathers
  obtain ⟨lead, m, hits, ⟨name, es, he, hreached⟩, hhits, hq⟩ := (hgathers.2 q).mp hq
  obtain ⟨_, e, -, -, -, -, rfl⟩ := (mem_select_star_iff h hhits).mp hq
  obtain ⟨below, rfl, -⟩ := hreached.exists_below
  obtain ⟨first, rest, hrest⟩ := List.exists_cons_of_ne_nil
    (List.append_ne_nil_of_right_ne_nil below (List.cons_ne_nil e.1 []))
  exact ⟨name, es, first, rest, he, by simp [← hrest]⟩

theorem nodup_select_star (h : isWild s = false) (hentries : entries.Pairwise Before)
    {hits : List (List Text)} (hhits : select view ['*' :: s] place (.folder entries) = .ok hits) :
    hits.Nodup := by
  have hdouble : '*' :: s ≠ doubleStar := by
    rintro heq
    cases heq
    cases h
  rw [select_star hdouble] at hhits
  obtain ⟨shows, -, hhits⟩ := bind_eq_ok_iff.mp hhits
  cases shows with
  | false =>
      cases hhits
      exact .nil
  | true =>
      cases hhits
      refine List.pairwise_map.mpr ((hentries.filter _).imp fun hbefore heq => hbefore.2 ?_)
      exact List.singleton_inj.mp (List.append_cancel_left heq)

mutual

theorem nodup_inFolders (h : isWild s = false) (place : List Text) : (n : Node α) → n.Ordered →
    ∀ {found}, inFolders view (select view ['*' :: s]) place n = .ok found → found.Nodup
  | .file content, _, found, hfound => by
      have hdouble : '*' :: s ≠ doubleStar := by
        rintro heq
        cases heq
        cases h
      rw [inFolders, select_star hdouble] at hfound
      cases hfound
      exact .nil
  | .folder entries, hn, found, hfound => by
      have hentries := hn [] entries rfl
      rw [inFolders] at hfound
      obtain ⟨here, hhere, hfound⟩ := bind_eq_ok_iff.mp hfound
      obtain ⟨shows, -, hfound⟩ := bind_eq_ok_iff.mp hfound
      have hnodup := nodup_select_star h hentries hhere
      cases shows with
      | false =>
          cases hfound
          exact hnodup
      | true =>
          obtain ⟨among, hamong, hfound⟩ := bind_eq_ok_iff.mp hfound
          cases hfound
          refine List.nodup_append.mpr ⟨hnodup, ?_, ?_⟩
          · refine nodup_amongFolders h place entries hentries (fun e he => ?_) hamong
            exact (ordered_folder_iff hentries).mp hn e.1 e.2 (entry?_of_mem hentries he)
          · -- What a folder holds itself lies less deep than what the folders in it hold.
            rintro q hq _ hbelow rfl
            obtain ⟨_, e, -, -, -, -, hplace⟩ := (mem_select_star_iff h hhere).mp hq
            obtain ⟨name, es, first, rest, -, hdeep⟩ := exists_of_mem_amongFolders h hamong hbelow
            simp [hplace] at hdeep

theorem nodup_amongFolders (h : isWild s = false) (place : List Text) :
    (entries : List (Text × Node α)) → entries.Pairwise Before → (∀ e ∈ entries, e.2.Ordered) →
    ∀ {found}, amongFolders view (select view ['*' :: s]) place entries = .ok found → found.Nodup
  | [], _, _, found, hfound => by
      cases hfound
      exact .nil
  | (_, .file _) :: es, hentries, hordered, found, hfound => by
      rw [amongFolders] at hfound
      exact nodup_amongFolders h place es (List.pairwise_cons.mp hentries).2
        (fun e he => hordered e (List.mem_cons_of_mem _ he)) hfound
  | (name, .folder first) :: es, hentries, hordered, found, hfound => by
      obtain ⟨hfirst, hes⟩ := List.pairwise_cons.mp hentries
      rw [amongFolders] at hfound
      obtain ⟨here, hhere, hfound⟩ := bind_eq_ok_iff.mp hfound
      obtain ⟨among, hamong, hfound⟩ := bind_eq_ok_iff.mp hfound
      cases hfound
      refine List.nodup_append.mpr ⟨?_, ?_, ?_⟩
      · exact nodup_inFolders h _ _ (hordered _ List.mem_cons_self) hhere
      · exact nodup_amongFolders h place es hes
          (fun e he => hordered e (List.mem_cons_of_mem _ he)) hamong
      · rintro q hq _ hbelow rfl
        have hgathers := @gathers_inFolders _ _ view (select view ['*' :: s]) (place ++ [name])
          (.folder first)
        rw [hhere] at hgathers
        obtain ⟨lead, m, hits, hreached, hhits, hq⟩ := (hgathers.2 q).mp hq
        obtain ⟨_, e, -, -, -, -, rfl⟩ := (mem_select_star_iff h hhits).mp hq
        obtain ⟨below, rfl, -⟩ := hreached.exists_below
        obtain ⟨other, more, next, rest, he, hdeep⟩ := exists_of_mem_amongFolders h hamong hbelow
        simp only [List.append_assoc, List.cons_append, List.append_cancel_left_eq,
          List.cons.injEq] at hdeep
        exact (hfirst _ he).2 hdeep.1

end

end Once

/-! ## How a search fails -/

/-- A search fails only where the view does. -/
theorem exists_of_select_error {fault : ε} {patterns : List Text}
    (h : select view patterns place n = .error fault) :
    ∃ q, view.look q = .error fault ∨ view.shows q = .error fault := by
  induction patterns generalizing place n with
  | nil => cases h
  | cons pattern patterns ih =>
      unfold select at h
      split at h
      · cases h
      split at h
      · have hgathers := @gathers_inFolders _ _ view (select view patterns) place n
        rw [h] at hgathers
        obtain ⟨lead, m, -, hfault | ⟨-, hfault⟩⟩ := hgathers
        · exact ih hfault
        · exact ⟨lead, .inr hfault⟩
      split at h
      · split at h
        · cases h
        · cases hshows : view.shows place with
          | error other =>
              rw [hshows] at h
              cases h
              exact ⟨place, .inr hshows⟩
          | ok shows =>
              rw [hshows] at h
              cases shows with
              | false => cases h
              | true =>
                  simp only [bind, Except.bind, if_true] at h
                  rcases bind_eq_error_iff.mp h with h | ⟨found, -, h⟩
                  · obtain ⟨e, -, h⟩ := exists_of_mapM_error h
                    exact ih h
                  · cases h
      · cases hlook : view.look (place ++ [pattern]) with
        | error other =>
            rw [hlook] at h
            cases h
            exact ⟨_, .inl hlook⟩
        | ok there =>
            rw [hlook] at h
            simp only [bind, Except.bind] at h
            split at h
            · split at h
              · exact ih h
              · cases h
            · cases h

/-- With a star in the only other part of its pattern, a search fails only at a folder that it comes
to. -/
theorem exists_reached_of_select_error {fault : ε}
    (h : select view [doubleStar, '*' :: s] place n = .error fault) :
    ∃ lead m, Reached view place n lead m ∧ m.isFolder ∧ view.shows lead = .error fault := by
  have hgathers := @gathers_inFolders _ _ view (select view ['*' :: s]) place n
  rw [select_doubleStar] at h
  rw [h] at hgathers
  obtain ⟨lead, m, hreached, hvisit | ⟨hfolder, hfault⟩⟩ := hgathers
  · by_cases hdouble : '*' :: s = doubleStar
    · -- A second pair of stars starts a search like the first from each folder.
      have hagain := @gathers_inFolders _ _ view (select view []) lead m
      rw [hdouble, select_doubleStar] at hvisit
      rw [hvisit] at hagain
      obtain ⟨deep, k, hdeep, hnone | ⟨hfolder, hfault⟩⟩ := hagain
      · cases hnone
      · exact ⟨deep, k, hreached.trans hdeep, hfolder, hfault⟩
    · rw [select_star hdouble] at hvisit
      cases m with
      | file content => cases hvisit
      | folder entries =>
          rcases bind_eq_error_iff.mp hvisit with hfault | ⟨shows, -, hnone⟩
          · exact ⟨lead, _, hreached, rfl, hfault⟩
          · cases shows <;> cases hnone
  · exact ⟨lead, m, hreached, hfolder, hfault⟩

end StaticSite.Pattern
