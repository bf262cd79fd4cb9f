import StaticSite.Proofs.Markup.AnyHole
import StaticSite.Proofs.Markup.OrdinaryText

/-!
# Templates

A template is literal text with holes in it, where every opening brace belongs to a hole. Filling
one name of a template touches the holes of that name and nothing else, and what is put in opens no
new hole. So a run of fillings is one look-up for each hole (`fillEach_written`).
-/

namespace StaticSite.Markup

open Text

/-! ## Reading one hole -/

/-- Between the braces of a hole stands its name, whatever blanks are around it. -/
theorem takeWhile_holeName {before name after : Text} (hname : IsHoleName name)
    (hbefore : ∀ c ∈ before, isBlank c) (hafter : ∀ c ∈ after, isBlank c) (rest : Text) :
    (dropBlanks (before ++ (name ++ (after ++ (holeEnd ++ rest))))).takeWhile isHyphenWord =
      name := by
  have hend : ∀ c ∈ (holeEnd ++ rest).head?, isBlank c = false ∧ isHyphenWord c = false := by
    intro c hc
    cases hc
    decide
  cases name with
  | nil =>
      have hblanks : ∀ c ∈ before ++ after, isBlank c := by
        simpa [or_imp, forall_and] using ⟨hbefore, hafter⟩
      have hdrop := (takeWhile_append_of_head hblanks fun c hc => (hend c hc).1).2
      rw [List.append_assoc] at hdrop
      rw [List.nil_append, dropBlanks, hdrop]
      rfl
  | cons c name =>
      have hc : isBlank c = false := by
        cases hblank : isBlank c with
        | false => rfl
        | true => simpa [isHyphenWord_of_isBlank hblank] using hname c List.mem_cons_self
      have hhead : ∀ d ∈ (c :: name ++ (after ++ (holeEnd ++ rest))).head?, isBlank d = false := by
        intro d hd
        cases hd
        exact hc
      have hdrop := (takeWhile_append_of_head hbefore hhead).2
      have hstop : ∀ d ∈ (after ++ (holeEnd ++ rest)).head?, isHyphenWord d = false := by
        cases after with
        | nil => exact fun d hd => (hend d hd).2
        | cons a after =>
            intro d hd
            cases hd
            exact isHyphenWord_of_isBlank (hafter a List.mem_cons_self)
      rw [dropBlanks, hdrop]
      exact (takeWhile_append_of_head hname hstop).1

theorem dropBlanks_append_holeEnd {after : Text} (hafter : ∀ c ∈ after, isBlank c) (rest : Text) :
    dropBlanks (after ++ (holeEnd ++ rest)) = holeEnd ++ rest := by
  refine (takeWhile_append_of_head hafter fun c hc => ?_).2
  cases hc
  decide

theorem eq_of_holeRest? {name opened : Text} {r : Unit × Text} {k : Nat}
    (hname : IsHoleName name) (h : holeRest? name opened k = some r) :
    name = (dropBlanks (opened.drop k)).takeWhile isHyphenWord := by
  simp only [holeRest?, Option.bind_eq_bind, Option.bind_eq_some_iff] at h
  obtain ⟨named, hnamed, rest, hend, -⟩ := h
  rw [after?_eq_some_iff] at hnamed hend
  have hblanks : ∀ c ∈ blanks named, isBlank c := fun _ => List.mem_takeWhile_imp
  have hnone : ∀ c ∈ ([] : Text), isBlank c := fun c hc => absurd hc List.not_mem_nil
  have hread := takeWhile_holeName hname hnone hblanks rest
  rw [List.nil_append, ← hend, blanks_append_dropBlanks, ← hnamed] at hread
  exact hread.symm

/-- A hole for a name that an attribute can have, as it is written. -/
structure Hole where
  before : Text
  name : Text
  after : Text
  ne_nil : name ≠ []
  isHoleName : IsHoleName name
  isBlank_before : ∀ c ∈ before, isBlank c
  isBlank_after : ∀ c ∈ after, isBlank c

namespace Hole

def text (hole : Hole) : Text :=
  holeStart ++ (hole.before ++ (hole.name ++ (hole.after ++ holeEnd)))

/-- The hole as one that is emptied where it is not filled. -/
def ofWord (hole : Hole) (h : ∀ c ∈ hole.name, isWord c) : HoleText :=
  { hole with isWord_name := h }

theorem text_ne_nil (hole : Hole) : hole.text ≠ [] := by simp [text, holeStart]

theorem exists_head (hole : Hole) : ∃ c more, hole.name = c :: more ∧ isBlank c = false := by
  obtain ⟨c, more, hcons⟩ := List.exists_cons_of_ne_nil hole.ne_nil
  refine ⟨c, more, hcons, ?_⟩
  cases hblank : isBlank c with
  | false => rfl
  | true => simpa [isHyphenWord_of_isBlank hblank] using hole.isHoleName c (by simp [hcons])

/-- Behind its two braces a hole has no opening brace. -/
theorem ne_open_of_mem (hole : Hole) {c : Char}
    (hc : c ∈ hole.before ++ (hole.name ++ (hole.after ++ holeEnd))) : c ≠ '{' := by
  rintro rfl
  simp only [List.mem_append] at hc
  rcases hc with hc | hc | hc | hc
  · exact absurd (hole.isBlank_before _ hc) (by decide)
  · exact absurd (hole.isHoleName _ hc) (by decide +kernel)
  · exact absurd (hole.isBlank_after _ hc) (by decide)
  · exact absurd hc (by decide)

/-- A hole is read for its own name and for no other. -/
theorem readHole_append (hole : Hole) {name : Text} (hname : IsHoleName name) (rest : Text) :
    readHole name (hole.text ++ rest) = if hole.name = name then some ((), rest) else none := by
  let opened := hole.before ++ (hole.name ++ (hole.after ++ (holeEnd ++ rest)))
  have hform : hole.text ++ rest = holeStart ++ opened := by
    simp [opened, text]
  have hblanks : blanks opened = hole.before := by
    obtain ⟨a, more, hcons, ha⟩ := hole.exists_head
    refine (takeWhile_append_of_head hole.isBlank_before fun c hc => ?_).1
    rw [hcons] at hc
    cases hc
    exact ha
  have hread : readHole name (holeStart ++ opened) =
      (List.range (hole.before.length + 1)).reverse.findSome? (holeRest? name opened) := by
    rw [readHole, after?_append, Option.bind_eq_bind, Option.bind_some, hblanks]
    rfl
  rw [hform, hread]
  split
  · rename_i heq
    subst heq
    -- the first place that is tried is the one behind all the blanks
    have hfirst : holeRest? hole.name opened hole.before.length = some ((), rest) := by
      simp [opened, holeRest?, dropBlanks_append_holeEnd hole.isBlank_after]
    rw [List.range_succ, List.reverse_append, List.reverse_singleton, List.singleton_append,
      List.findSome?_cons, hfirst]
  · rename_i hne
    apply List.findSome?_eq_none_iff.mpr
    intro k hk
    have hle : k ≤ hole.before.length := by
      simpa [Nat.lt_succ_iff] using hk
    cases hrest : holeRest? name opened k with
    | none => rfl
    | some r =>
        have hdrop : opened.drop k = hole.before.drop k ++
            (hole.name ++ (hole.after ++ (holeEnd ++ rest))) :=
          List.drop_append_of_le_length hle
        have hblank : ∀ c ∈ hole.before.drop k, isBlank c := fun c hc =>
          hole.isBlank_before c (List.mem_of_mem_drop hc)
        have heq := eq_of_holeRest? hname hrest
        rw [hdrop, takeWhile_holeName hole.isHoleName hblank hole.isBlank_after] at heq
        exact absurd heq.symm hne

/-- No hole of another name begins in a hole. -/
theorem readHole_of_suffix (hole : Hole) {name : Text} (hname : IsHoleName name)
    (hne : hole.name ≠ name) (rest u : Text) (hu : u ≠ []) (hsuffix : u <:+ hole.text) :
    readHole name (u ++ rest) = none := by
  rcases List.suffix_cons_iff.mp hsuffix with rfl | hsuffix
  · have hread := hole.readHole_append hname rest
    rw [if_neg hne] at hread
    exact hread
  · rcases List.suffix_cons_iff.mp hsuffix with rfl | hsuffix
    · -- the second brace is followed by no third
      obtain ⟨c, more, hcons⟩ := List.exists_cons_of_ne_nil
        (show hole.before ++ (hole.name ++ (hole.after ++ holeEnd)) ≠ [] by simp [hole.ne_nil])
      have hc : c ≠ '{' := hole.ne_open_of_mem (by rw [hcons]; exact List.mem_cons_self)
      have hopen : after? holeStart ('{' :: (c :: more ++ rest)) = none := by
        simp [holeStart, after?, hc.symm]
      show readHole name ('{' :: (hole.before ++ (hole.name ++ (hole.after ++ holeEnd)) ++ rest)) =
        none
      rw [hcons, readHole, hopen]
      rfl
    · obtain ⟨c, more, rfl⟩ := List.exists_cons_of_ne_nil hu
      exact readHole_cons_of_ne name (hole.ne_open_of_mem (hsuffix.subset List.mem_cons_self)) _

theorem fill_append (hole : Hole) {name : Text} (hname : IsHoleName name) (value rest : Text) :
    fill name value (hole.text ++ rest) =
      (if hole.name = name then value else hole.text) ++ fill name value rest := by
  split
  · rename_i heq
    have hread := hole.readHole_append hname rest
    rw [if_pos heq] at hread
    exact fill_of_readHole name value hole.text_ne_nil hread
  · rename_i hne
    exact replaceAll_append_of_none _ (hole.readHole_of_suffix hname hne rest)

end Hole

/-! ## Templates -/

/-- Fills names one after another, each one in what the ones before have left. -/
def fillEach (es : List (Text × Text)) (content : Text) : Text :=
  es.foldl (fun s e => fill e.1 e.2 s) content

@[simp] theorem fillEach_nil (content : Text) : fillEach [] content = content := rfl

@[simp] theorem fillEach_cons (e : Text × Text) (es : List (Text × Text)) (content : Text) :
    fillEach (e :: es) content = fillEach es (fill e.1 e.2 content) := rfl

@[simp] theorem fillEach_append (es fs : List (Text × Text)) (content : Text) :
    fillEach (es ++ fs) content = fillEach fs (fillEach es content) :=
  List.foldl_append

/-- Whether names can be those of attributes and what they are filled with opens no hole. -/
def IsHarmless (es : List (Text × Text)) : Prop := ∀ e ∈ es, IsHoleName e.1 ∧ '{' ∉ e.2

instance (es : List (Text × Text)) : Decidable (IsHarmless es) :=
  inferInstanceAs (Decidable (∀ e ∈ es, IsHoleName e.1 ∧ '{' ∉ e.2))

theorem isHarmless_cons {e : Text × Text} {es : List (Text × Text)} :
    IsHarmless (e :: es) ↔ (IsHoleName e.1 ∧ '{' ∉ e.2) ∧ IsHarmless es :=
  List.forall_mem_cons

theorem isHarmless_append {es fs : List (Text × Text)} :
    IsHarmless (es ++ fs) ↔ IsHarmless es ∧ IsHarmless fs :=
  List.forall_mem_append

/-- The first value that a list of pairs gives to a name. -/
def valueIn (es : List (Text × Text)) (name : Text) : Option Text :=
  (es.find? (·.1 = name)).map (·.2)

theorem mem_of_valueIn {es : List (Text × Text)} {name value : Text}
    (h : valueIn es name = some value) : (name, value) ∈ es := by
  obtain ⟨e, he, rfl⟩ := Option.map_eq_some_iff.mp h
  obtain rfl : e.1 = name := by simpa using List.find?_some he
  exact List.mem_of_find?_eq_some he

theorem valueIn_append (es fs : List (Text × Text)) (name : Text) :
    valueIn (es ++ fs) name = (valueIn es name).or (valueIn fs name) := by
  rw [valueIn, List.find?_append, Option.map_or]
  rfl

theorem valueIn_cons (e : Text × Text) (es : List (Text × Text)) (name : Text) :
    valueIn (e :: es) name = (if name = e.1 then some e.2 else none).or (valueIn es name) := by
  have h := valueIn_append [e] es name
  rw [List.singleton_append] at h
  rw [h]
  by_cases hname : e.1 = name <;> simp [valueIn, hname, eq_comm]

/-- That a name is emptied in the end does not show where what is left is emptied anyway. -/
theorem getD_valueIn_append_nil (es : List (Text × Text)) (last name : Text) :
    (valueIn (es ++ [(last, [])]) name).getD [] = (valueIn es name).getD [] := by
  rw [valueIn_append]
  cases valueIn es name with
  | some value => rfl
  | none => by_cases hname : last = name <;> simp [valueIn, hname]

/-- A stretch of a template: literal text without opening braces, or a hole. -/
inductive Stretch
  | literal (s : Text) (h : '{' ∉ s)
  | hole (h : Hole)

/-- A stretch when some names have values: their holes have given way, the others stay. -/
def Stretch.written (value : Text → Option Text) : Stretch → Text
  | literal s _ => s
  | hole h => (value h.name).getD h.text

/-- Whether a stretch that is a hole has a name of word characters, which are emptied if they are
not filled. -/
def Stretch.HasWordName : Stretch → Prop
  | literal _ _ => True
  | hole h => ∀ c ∈ h.name, isWord c

instance : DecidablePred Stretch.HasWordName
  | .literal _ _ => isTrue trivial
  | .hole h => inferInstanceAs (Decidable (∀ c ∈ h.name, isWord c))

abbrev Template := List Stretch

namespace Template

/-- A template in which each hole whose name has a value is replaced, all at once. -/
def written (value : Text → Option Text) (t : Template) : Text := t.flatMap (Stretch.written value)

/-- The text of a template as it is before anything is filled in. -/
def text (t : Template) : Text := t.written fun _ => none

/-- A template in which every hole is replaced, all at once. -/
def filled (value : Text → Text) (t : Template) : Text := t.written fun name => some (value name)

section Written

variable {name value : Text} {t : Template} {values : Text → Option Text}

/-- Filling one name replaces its holes, wherever nothing was put in yet. -/
theorem fill_written (hname : IsHoleName name) (value : Text)
    (hvalues : ∀ n v, values n = some v → '{' ∉ v) (t : Template) :
    fill name value (t.written values) =
      t.written fun n => (values n).or (if n = name then some value else none) := by
  induction t with
  | nil => rfl
  | cons stretch t ih =>
      simp only [written, List.flatMap_cons] at ih ⊢
      cases stretch with
      | literal s h =>
          rw [Stretch.written, fill_lead_append name value (fun c hc hopen => h (hopen ▸ hc)), ih]
          rfl
      | hole h =>
          simp only [Stretch.written]
          cases hvalue : values h.name with
          | some v =>
              have hv : ∀ c ∈ v, c ≠ '{' := fun c hc hopen => hvalues _ v hvalue (hopen ▸ hc)
              rw [Option.getD_some, fill_lead_append name value hv, ih]
              rfl
          | none =>
              rw [Option.getD_none, h.fill_append hname, ih]
              by_cases heq : h.name = name <;> simp [heq]

/-- A run of fillings gives each hole the first value that its name has. The induction is on the
run; what was put in before opens no hole. -/
theorem fillEach_written {es : List (Text × Text)} (hes : IsHarmless es)
    (hvalues : ∀ n v, values n = some v → '{' ∉ v) (t : Template) :
    fillEach es (t.written values) = t.written fun n => (values n).or (valueIn es n) := by
  induction es generalizing values with
  | nil => simp [valueIn]
  | cons e es ih =>
      obtain ⟨hname, hvalue⟩ := hes e List.mem_cons_self
      have hnext : ∀ n v, (values n).or (if n = e.1 then some e.2 else none) = some v →
          '{' ∉ v := by
        intro n v h
        rcases Option.or_eq_some_iff.mp h with h | ⟨-, h⟩
        · exact hvalues n v h
        · split at h
          · cases h
            exact hvalue
          · cases h
      rw [fillEach_cons, fill_written hname e.2 hvalues,
        ih (fun a ha => hes a (List.mem_cons_of_mem e ha)) hnext]
      simp only [valueIn_cons, Option.or_assoc]

theorem fillEach_text {es : List (Text × Text)} (hes : IsHarmless es) (t : Template) :
    fillEach es t.text = t.written (valueIn es) := by
  have hnone : ∀ n v, (fun _ => none : Text → Option Text) n = some v → '{' ∉ v :=
    fun _ _ hv => by cases hv
  have h := fillEach_written hes hnone t
  simp only [Option.none_or] at h
  exact h

/-- Whether all holes have names of word characters. -/
def HasWordNames (t : Template) : Prop := ∀ stretch ∈ t, stretch.HasWordName

instance (t : Template) : Decidable t.HasWordNames := by unfold HasWordNames; infer_instance

/-- Emptying the holes that are left gives the empty text to every name without a value. -/
theorem clearHoles_written (hvalues : ∀ n v, values n = some v → '{' ∉ v)
    (hwords : t.HasWordNames) :
    clearHoles (t.written values) = t.filled fun n => (values n).getD [] := by
  induction t with
  | nil => rfl
  | cons stretch t ih =>
      have ih := ih fun s hmem => hwords s (List.mem_cons_of_mem stretch hmem)
      simp only [filled, written, List.flatMap_cons, clearHoles] at ih ⊢
      cases stretch with
      | literal s h =>
          rw [Stretch.written, replaceAll_append_of_opensWith _ opensWith_readAnyHole h, ih]
          rfl
      | hole h =>
          simp only [Stretch.written]
          cases hvalue : values h.name with
          | some v =>
              rw [Option.getD_some,
                replaceAll_append_of_opensWith _ opensWith_readAnyHole (hvalues _ v hvalue), ih]
              rfl
          | none =>
              have hword : ∀ c ∈ h.name, isWord c := hwords (.hole h) List.mem_cons_self
              have hread := (h.ofWord hword).readAnyHole_append (t.flatMap (Stretch.written values))
              rw [Option.getD_none, replaceAll_of_some _ h.text_ne_nil hread, ih]
              rfl

theorem clearHoles_fillEach {es : List (Text × Text)} (hes : IsHarmless es)
    (hwords : t.HasWordNames) :
    clearHoles (fillEach es t.text) = t.filled fun n => (valueIn es n).getD [] := by
  rw [fillEach_text hes]
  exact clearHoles_written (fun _ _ h => (hes _ (mem_of_valueIn h)).2) hwords

end Written

end Template

end StaticSite.Markup
