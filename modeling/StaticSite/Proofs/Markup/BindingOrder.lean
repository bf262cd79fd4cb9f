import StaticSite.Proofs.Markup.Binding

/-!
# The order in which a component is bound

A self-closing component is to be bound in three steps: the classes of the chosen variant, then the
other props, then nothing for what is left for classes. Binding goes through the props instead and
puts the classes in where it comes to the variant. That is the same where the variant stands before
all props that fill a hole, and on every template whose values open no hole. In any other order of
the names there are values that tell the two apart.
-/

namespace StaticSite.Markup

open Text

/-- Binds a self-closing component step by step: the classes of the chosen variant, the other props
in their order, and nothing for the classes that are left. -/
def bindInOrder (content : Text) (props : Props) (variants : Table Text) : Text :=
  fill classesName [] (fillEach (props.without steeringNames).entries
    (match chosenClasses? props variants with
      | some classes => fill classesName classes content
      | none => content))

/-- The names that stand before the variant's, if there is a variant. -/
def namesBeforeVariant (names : List Text) : List Text :=
  if names.contains variantName then names.takeWhile (· ≠ variantName) else []

theorem namesBeforeVariant_append {before after : List Text} (h : variantName ∉ before) :
    namesBeforeVariant (before ++ variantName :: after) = before := by
  have hbefore : ∀ name ∈ before, decide (name ≠ variantName) = true := fun name hname =>
    decide_eq_true fun heq => h (heq ▸ hname)
  have hmem : (before ++ variantName :: after).contains variantName = true :=
    List.contains_iff_mem.mpr (by simp)
  rw [namesBeforeVariant, if_pos hmem, List.takeWhile_append_of_pos hbefore,
    List.takeWhile_cons_of_neg (by simp), List.append_nil]

/-- Whether no prop that fills a hole stands before the variant. -/
def VariantFirst (names : List Text) : Prop :=
  ∀ name ∈ namesBeforeVariant names, name ∈ steeringNames

instance : DecidablePred VariantFirst := fun names =>
  inferInstanceAs (Decidable (∀ name ∈ namesBeforeVariant names, name ∈ steeringNames))

/-! ## Where both agree -/

section Agree

variable {props : Props} {variants : Table Text} {before after : List (Text × Text)}
  {v classes : Text}

theorem bindInOrder_of_not_chosen (h : chosenClasses? props variants = none) (content : Text) :
    bindInOrder content props variants =
      fillEach (fillings props.entries ++ [(classesName, [])]) content := by
  rw [bindInOrder, h, fillEach_append]
  rfl

theorem fillings_variant (es : List (Text × Text)) (v : Text) :
    fillings ((variantName, v) :: es) = fillings es := by
  rw [fillings_cons]
  exact if_pos (show variantName ∈ steeringNames by decide)

/-- Bound step by step, the classes are filled in before all props. -/
theorem bindInOrder_of_chosen (hprops : props.entries = before ++ (variantName, v) :: after)
    (hv : variants.get? v = some classes) (content : Text) :
    bindInOrder content props variants =
      fillEach (fillingsAround [] classes (before ++ after)) content := by
  have hget : props.get? variantName = some v :=
    Table.get?_of_mem (e := (variantName, v)) (by simp [hprops])
  have hchosen : chosenClasses? props variants = some classes := by
    rw [chosenClasses?, hget]
    exact hv
  have hentries : (props.without steeringNames).entries = fillings (before ++ after) := by
    rw [fillings_append, ← fillings_variant after v, ← fillings_append, ← hprops]
    rfl
  rw [bindInOrder, hchosen, hentries, fillingsAround, fillEach_append]
  rfl

theorem namesBeforeVariant_of_split
    (hprops : props.entries = before ++ (variantName, v) :: after) :
    namesBeforeVariant props.names = before.map (·.1) := by
  have hnames : props.names = before.map (·.1) ++ variantName :: after.map (·.1) := by
    rw [Table.names, hprops, List.map_append, List.map_cons]
  have hdistinct : props.names.Nodup := props.distinct
  rw [hnames] at hdistinct ⊢
  apply namesBeforeVariant_append
  intro hmem
  exact (List.nodup_append.mp hdistinct).2.2 _ hmem _ List.mem_cons_self rfl

theorem bindSelfClosing_eq_of_not_chosen (h : chosenClasses? props variants = none)
    (content : Text) :
    bindSelfClosing content props variants = bindInOrder content props variants := by
  rw [bindSelfClosing_of_not_chosen h, bindInOrder_of_not_chosen h]

theorem bindSelfClosing_eq_of_variantFirst (h : VariantFirst props.names) (content : Text) :
    bindSelfClosing content props variants = bindInOrder content props variants := by
  cases hchosen : chosenClasses? props variants with
  | none => exact bindSelfClosing_eq_of_not_chosen hchosen content
  | some classes =>
      obtain ⟨before, v, after, hentries, hv⟩ := exists_split_of_chosen hchosen
      have hnone : fillings before = [] := by
        apply List.filter_eq_nil_iff.mpr
        intro e he
        have hsteers : e.1 ∈ steeringNames := by
          apply h
          rw [namesBeforeVariant_of_split hentries]
          exact List.mem_map_of_mem he
        simpa using hsteers
      rw [bindSelfClosing_of_chosen hentries hv, bindInOrder_of_chosen hentries hv, fillingsAround,
        fillingsAround, fillings_append, hnone]
      rfl

/-- On a template the order does not show, unless a prop of the classes' own name stands before the
variant. -/
theorem bindSelfClosing_eq_of_template (hprops : IsHarmless props.entries)
    (hvariants : ∀ e ∈ variants.entries, '{' ∉ e.2)
    (hclasses : classesName ∉ namesBeforeVariant props.names) (t : Template) :
    bindSelfClosing t.text props variants = bindInOrder t.text props variants := by
  cases hchosen : chosenClasses? props variants with
  | none => exact bindSelfClosing_eq_of_not_chosen hchosen t.text
  | some classes =>
      obtain ⟨before, v, after, hentries, hv⟩ := exists_split_of_chosen hchosen
      rw [namesBeforeVariant_of_split hentries] at hclasses
      have hparts := hprops
      rw [hentries, isHarmless_append, isHarmless_cons] at hparts
      obtain ⟨hbefore, -, hafter⟩ := hparts
      have hplain : '{' ∉ classes := hvariants _ (Table.mem_of_get?_eq_some hv)
      have hnone : valueIn (fillings before) classesName = none := by
        rw [valueIn_fillings,
          valueIn_eq_none fun e he heq => hclasses (List.mem_map.mpr ⟨e, he, heq⟩)]
        exact ite_self none
      rw [bindSelfClosing_of_chosen hentries hv, bindInOrder_of_chosen hentries hv,
        Template.fillEach_text (isHarmless_fillingsAround hbefore hplain hafter),
        Template.fillEach_text (isHarmless_fillingsAround (fun _ h => absurd h List.not_mem_nil)
          hplain (isHarmless_append.mpr ⟨hbefore, hafter⟩))]
      congr 1
      funext name
      rw [valueIn_fillingsAround, valueIn_fillingsAround, fillings_append, valueIn_append]
      by_cases hclass : name = classesName
      · simp only [hclass, hnone, if_true, Option.none_or]
        rfl
      · simp only [hclass, if_false]
        rfl

end Agree

/-! ## Where they differ -/

section Differ

/-- A hole for a name, without blanks. -/
def Hole.bare (name : Text) (h : name ≠ [] ∧ IsHoleName name) : Hole :=
  ⟨[], name, [], h.1, h.2, by simp, by simp⟩

theorem fillEach_hole {es : List (Text × Text)} (hes : IsHarmless es) (h : Hole) :
    fillEach es h.text = (valueIn es h.name).getD h.text := by
  have hfill := Template.fillEach_text hes [.hole h]
  simpa [Template.text, Template.written, Stretch.written] using hfill

/-- A value that is a hole itself hands on to the names that come after its own. -/
theorem fillEach_relay {first last : List (Text × Text)} (hfirst : IsHarmless first)
    (hole inner : Hole) (hnone : valueIn first hole.name = none) (hlast : IsHarmless last) :
    fillEach (first ++ (hole.name, inner.text) :: last) hole.text =
      (valueIn last inner.name).getD inner.text := by
  have hput : fill hole.name inner.text hole.text = inner.text := by
    have h := hole.fill_append hole.isHoleName inner.text []
    rw [if_pos rfl, List.append_nil] at h
    rw [h]
    exact List.append_nil _
  rw [fillEach_append, fillEach_hole hfirst, hnone, Option.getD_none, fillEach_cons, hput,
    fillEach_hole hlast]

section Relay

variable {first last after : List (Text × Text)} {classes : Text} {hole inner : Hole}

/-- The value is filled in before the classes and takes them over. -/
theorem fillEach_relay_before (hfirst : IsHarmless first) (hlast : IsHarmless last)
    (hclasses : '{' ∉ classes) (hafter : IsHarmless after) (hfills : hole.name ∉ steeringNames)
    (hnone : valueIn first hole.name = none) :
    fillEach (fillingsAround (first ++ (hole.name, inner.text) :: last) classes after) hole.text =
      (valueIn (fillingsAround last classes after) inner.name).getD inner.text := by
  have hsplit : fillingsAround (first ++ (hole.name, inner.text) :: last) classes after =
      fillings first ++ (hole.name, inner.text) :: fillingsAround last classes after := by
    rw [fillingsAround, fillings_append, fillings_cons, if_neg hfills, fillingsAround]
    simp only [List.append_assoc, List.cons_append]
  have hearlier : valueIn (fillings first) hole.name = none := by
    rw [valueIn_fillings, if_neg hfills, hnone]
  rw [hsplit]
  exact fillEach_relay hfirst.fillings hole inner hearlier
    (isHarmless_fillingsAround hlast hclasses hafter)

/-- The value is filled in after the classes, and nothing is left for it to take over. -/
theorem fillEach_relay_after (hfirst : IsHarmless first) (hlast : IsHarmless last)
    (hclasses : '{' ∉ classes) (hfills : hole.name ∉ steeringNames)
    (hname : hole.name ≠ classesName) (hnone : valueIn first hole.name = none) :
    fillEach (fillingsAround [] classes (first ++ (hole.name, inner.text) :: last)) hole.text =
      (valueIn (fillings last ++ [(classesName, [])]) inner.name).getD inner.text := by
  have hsplit : fillingsAround [] classes (first ++ (hole.name, inner.text) :: last) =
      ((classesName, classes) :: fillings first) ++
        (hole.name, inner.text) :: (fillings last ++ [(classesName, [])]) := by
    rw [fillingsAround, fillings_append, fillings_cons, if_neg hfills, List.append_assoc]
    simp only [List.append_assoc, List.cons_append]
    rfl
  have hearlier : valueIn ((classesName, classes) :: fillings first) hole.name = none := by
    rw [valueIn_cons, if_neg hname, valueIn_fillings, if_neg hfills, hnone]
    rfl
  rw [hsplit]
  exact fillEach_relay (isHarmless_append.mpr ⟨isHarmless_classes hclasses, hfirst.fillings⟩) hole
    inner hearlier (isHarmless_append.mpr ⟨hlast.fillings, isHarmless_classes List.not_mem_nil⟩)

end Relay

/-- The value of a name where the variant is `on`, one name has the text that is given, and all
others have none. -/
def heldValue (special inner name : Text) : Text :=
  if name = variantName then "on" else if name = special then inner else []

def holding (special inner : Text) (names : List Text) : List (Text × Text) :=
  names.map fun name => (name, heldValue special inner name)

variable {names before after : List Text} {special inner : Text}

theorem map_fst_holding (special inner : Text) (names : List Text) :
    (holding special inner names).map (·.1) = names := by
  simp [holding, Function.comp_def]

theorem holding_append (special inner : Text) (before after : List Text) :
    holding special inner (before ++ after) =
      holding special inner before ++ holding special inner after :=
  List.map_append

theorem holding_split (h : special ≠ variantName) (first last : List Text) :
    holding special inner (first ++ special :: last) =
      holding special inner first ++ (special, inner) :: holding special inner last := by
  have hheld : heldValue special inner special = inner := by
    rw [heldValue, if_neg h, if_pos rfl]
  rw [holding, List.map_append, List.map_cons, hheld]
  rfl

theorem isHarmless_holding (hnames : ∀ name ∈ names, IsHoleName name)
    (hspecial : special ∉ names ∨ '{' ∉ inner) : IsHarmless (holding special inner names) := by
  intro e he
  obtain ⟨name, hname, rfl⟩ := List.mem_map.mp he
  refine ⟨hnames name hname, ?_⟩
  dsimp only [heldValue]
  split
  · decide
  · split
    · rename_i heq
      exact hspecial.resolve_left (not_not_intro (heq ▸ hname))
    · exact List.not_mem_nil

theorem valueIn_holding (special inner : Text) (names : List Text) (name : Text) :
    valueIn (holding special inner names) name =
      if name ∈ names then some (heldValue special inner name) else none := by
  induction names with
  | nil => rfl
  | cons other names ih =>
      have hcons : holding special inner (other :: names) =
          (other, heldValue special inner other) :: holding special inner names := rfl
      rw [hcons, valueIn_cons, ih]
      by_cases heq : name = other
      · simp only [heq, if_true, Option.some_or, List.mem_cons_self]
      · simp only [heq, if_false, Option.none_or, List.mem_cons, false_or]

def heldProps (special inner : Text) (names : List Text) (h : names.Nodup) : Props :=
  ⟨holding special inner names, (map_fst_holding special inner names).symm ▸ h⟩

theorem names_heldProps (special inner : Text) (h : names.Nodup) :
    (heldProps special inner names h).names = names :=
  map_fst_holding special inner names

def oneVariant : Table Text := .ofList [("on", "x")]

theorem entries_heldProps (h : (before ++ variantName :: after).Nodup) :
    (heldProps special inner (before ++ variantName :: after) h).entries =
      holding special inner before ++
        (variantName, "on".toList) :: holding special inner after := by
  show holding special inner (before ++ variantName :: after) = _
  rw [holding, List.map_append, List.map_cons, heldValue, if_pos rfl]
  rfl

/-- A prop of the classes' own name that stands before the variant takes the hole for classes. -/
theorem bindSelfClosing_ne_of_classes (hdistinct : (before ++ variantName :: after).Nodup)
    (hnames : ∀ name ∈ before ++ variantName :: after, IsHoleName name)
    (hclasses : classesName ∈ before) (hole : Hole) (hhole : hole.name = classesName) :
    bindSelfClosing hole.text (heldProps [] [] _ hdistinct) oneVariant ≠
      bindInOrder hole.text (heldProps [] [] _ hdistinct) oneVariant := by
  have hv : oneVariant.get? "on" = some "x".toList := by decide
  have hplain : '{' ∉ "x".toList := by decide
  have hbefore : IsHarmless (holding [] [] before) := isHarmless_holding
    (fun name hname => hnames name (List.mem_append_left _ hname)) (.inr List.not_mem_nil)
  have hafter : IsHarmless (holding [] [] after) := isHarmless_holding
    (fun name hname => hnames name (List.mem_append_right _ (List.mem_cons_of_mem _ hname)))
    (.inr List.not_mem_nil)
  have hvalue : valueIn (fillings (holding [] [] before)) classesName = some [] := by
    rw [valueIn_fillings, valueIn_holding, if_pos hclasses]
    decide
  rw [bindSelfClosing_of_chosen (entries_heldProps hdistinct) hv,
    bindInOrder_of_chosen (entries_heldProps hdistinct) hv,
    fillEach_hole (isHarmless_fillingsAround hbefore hplain hafter),
    fillEach_hole (isHarmless_fillingsAround (fun _ h => absurd h List.not_mem_nil) hplain
      (isHarmless_append.mpr ⟨hbefore, hafter⟩)),
    hhole, valueIn_fillingsAround, valueIn_fillingsAround, hvalue, if_pos rfl]
  exact show ([] : Text) ≠ "x".toList by decide

theorem notMem_of_nodup {first last : List Text}
    (hdistinct : (first ++ special :: last ++ variantName :: after).Nodup) :
    special ∉ first ++ (last ++ after) := by
  grind [List.nodup_append]

/-- Apart from the one name that has a hole for its value, nothing opens a hole. -/
theorem isHarmless_holding_of_subset {first last part : List Text}
    (hdistinct : (first ++ special :: last ++ variantName :: after).Nodup)
    (hnames : ∀ name ∈ first ++ special :: last ++ variantName :: after, IsHoleName name)
    (inner : Text) (hpart : part ⊆ first ++ (last ++ after)) :
    IsHarmless (holding special inner part) := by
  apply isHarmless_holding _ (.inl fun hmem => notMem_of_nodup hdistinct (hpart hmem))
  intro name hname
  apply hnames
  have hmem := hpart hname
  grind

theorem valueIn_fillings_holding (hother : classesName ≠ special) (inner : Text)
    (names : List Text) :
    valueIn (fillings (holding special inner names)) classesName =
      if classesName ∈ names then some [] else none := by
  have hheld : heldValue special inner classesName = [] := by
    rw [heldValue, if_neg (show classesName ≠ variantName by decide), if_neg hother]
  rw [valueIn_fillings, valueIn_holding, hheld, if_neg (by decide)]

/-- A prop that stands before the variant can bring in a hole for classes, which is to stay empty
and is filled with those of the variant. -/
theorem bindSelfClosing_ne_of_mem (hdistinct : (before ++ variantName :: after).Nodup)
    (hnames : ∀ name ∈ before ++ variantName :: after, IsHoleName name)
    (hclasses : classesName ∉ before) (hole inner : Hole) (hinner : inner.name = classesName)
    (hspecial : hole.name ∈ before) (hfills : hole.name ∉ steeringNames) :
    bindSelfClosing hole.text (heldProps hole.name inner.text _ hdistinct) oneVariant ≠
      bindInOrder hole.text (heldProps hole.name inner.text _ hdistinct) oneVariant := by
  have hv : oneVariant.get? "on" = some "x".toList := by decide
  have hplain : '{' ∉ "x".toList := by decide
  have hvariant : hole.name ≠ variantName := fun heq => hfills (heq ▸ by decide)
  have hother : classesName ≠ hole.name := fun heq => hclasses (heq ▸ hspecial)
  obtain ⟨first, last, rfl⟩ := List.append_of_mem hspecial
  have hharmless : ∀ part, part ⊆ first ++ (last ++ after) →
      IsHarmless (holding hole.name inner.text part) := fun _ hpart =>
    isHarmless_holding_of_subset hdistinct hnames inner.text hpart
  have hfirst := hharmless first (List.subset_append_left _ _)
  have hrest := hharmless (last ++ after) (List.subset_append_right _ _)
  have hlast := hharmless last fun _ hname => by simp [hname]
  have hafter := hharmless after fun _ hname => by simp [hname]
  have hnone : valueIn (holding hole.name inner.text first) hole.name = none := by
    have hapart := notMem_of_nodup hdistinct
    rw [valueIn_holding, if_neg fun hmem => hapart (List.mem_append_left _ hmem)]
  have hclass := valueIn_fillings_holding hother inner.text
  rw [bindSelfClosing_of_chosen (entries_heldProps hdistinct) hv,
    bindInOrder_of_chosen (entries_heldProps hdistinct) hv, holding_split hvariant,
    List.append_assoc, List.cons_append, ← holding_append,
    fillEach_relay_before hfirst hlast hplain hafter hfills hnone,
    fillEach_relay_after hfirst hrest hplain hfills hother.symm hnone, hinner,
    valueIn_fillingsAround, valueIn_append, hclass last, hclass (last ++ after), if_pos rfl]
  have hlater : classesName ∉ last := fun hmem => hclasses (by simp [hmem])
  have hempty : ((if classesName ∈ last ++ after then some [] else none).or
      (valueIn [(classesName, [])] classesName)).getD inner.text = ([] : Text) := by
    split <;> rfl
  rw [if_neg hlater, Option.none_or, Option.getD_some, hempty]
  exact List.cons_ne_nil _ _

/-- Whether names are those of attributes. -/
def AreAttributeNames (names : List Text) : Prop := ∀ name ∈ names, name ≠ [] ∧ IsHoleName name

instance : DecidablePred AreAttributeNames := fun names =>
  inferInstanceAs (Decidable (∀ name ∈ names, name ≠ [] ∧ IsHoleName name))

/-- Where a prop that fills a hole stands before the variant, there are values for which the order
shows. -/
theorem exists_bindSelfClosing_ne (hdistinct : names.Nodup) (hnames : AreAttributeNames names)
    (h : ¬VariantFirst names) :
    ∃ (props : Props) (variants : Table Text) (content : Text), props.names = names ∧
      bindSelfClosing content props variants ≠ bindInOrder content props variants := by
  have hvariant : variantName ∈ names := by
    by_contra hmem
    apply h
    intro name hname
    rw [namesBeforeVariant, if_neg (by simpa using hmem)] at hname
    cases hname
  obtain ⟨before, after, rfl⟩ := List.append_of_mem hvariant
  have hbefore : variantName ∉ before := fun hmem =>
    (List.nodup_append.mp hdistinct).2.2 _ hmem _ List.mem_cons_self rfl
  simp only [VariantFirst, namesBeforeVariant_append hbefore, not_forall] at h
  obtain ⟨special, hspecial, hfills⟩ := h
  have hholes : ∀ name ∈ before ++ variantName :: after, IsHoleName name := fun name hname =>
    (hnames name hname).2
  have hclass : classesName ≠ [] ∧ IsHoleName classesName := by decide
  by_cases hclasses : classesName ∈ before
  · have hdiffer :=
      bindSelfClosing_ne_of_classes hdistinct hholes hclasses (.bare classesName hclass) rfl
    exact ⟨_, _, _, names_heldProps _ _ hdistinct, hdiffer⟩
  · have hname := hnames special (List.mem_append_left _ hspecial)
    have hdiffer := bindSelfClosing_ne_of_mem hdistinct hholes hclasses (.bare special hname)
      (.bare classesName hclass) rfl hspecial hfills
    exact ⟨_, _, _, names_heldProps _ _ hdistinct, hdiffer⟩

end Differ

/-- Binding agrees with the three steps whatever the values are just where the variant stands before
all props that fill a hole (for names that attributes can have). With props in another order it
does so where they choose no variant, and on every template whose values open no hole if the prop
before the variant is not one for the classes themselves. -/
theorem bindSelfClosing_eq_bindInOrder (props : Props) :
    (VariantFirst props.names → ∀ variants content,
        bindSelfClosing content props variants = bindInOrder content props variants) ∧
      (AreAttributeNames props.names → ¬VariantFirst props.names →
        ∃ (other : Props) (variants : Table Text) (content : Text), other.names = props.names ∧
          bindSelfClosing content other variants ≠ bindInOrder content other variants) ∧
      ∀ variants,
        (chosenClasses? props variants = none → ∀ content,
          bindSelfClosing content props variants = bindInOrder content props variants) ∧
        (IsHarmless props.entries → (∀ e ∈ variants.entries, '{' ∉ e.2) →
          classesName ∉ namesBeforeVariant props.names → ∀ t : Template,
          bindSelfClosing t.text props variants = bindInOrder t.text props variants) := by
  refine ⟨fun h _ content => bindSelfClosing_eq_of_variantFirst h content,
    exists_bindSelfClosing_ne props.distinct, fun variants => ⟨?_, ?_⟩⟩
  · exact bindSelfClosing_eq_of_not_chosen
  · exact bindSelfClosing_eq_of_template

/-- A value that is a hole for classes. -/
def classesHole : Text := "\x7b\x7b variantClasses \x7d\x7d"

def earlyVariant : Props := .ofList [("src", "A"), (variantName, "primary"), ("a", classesHole)]

def lateVariant : Props := .ofList [("src", "A"), ("a", classesHole), (variantName, "primary")]

/-- The same names, with a value that opens no hole. -/
def plainVariant : Props := .ofList [("src", "A"), ("a", "x"), (variantName, "primary")]

def primaryOnly : Table Text := .ofList [("primary", "btn")]

theorem bindSelfClosing_eq_bindInOrder_primary :
    VariantFirst earlyVariant.names ∧
      bindSelfClosing "\x7b\x7b a \x7d\x7d" earlyVariant primaryOnly =
        bindInOrder "\x7b\x7b a \x7d\x7d" earlyVariant primaryOnly ∧
      AreAttributeNames lateVariant.names ∧ ¬VariantFirst lateVariant.names ∧
      (∃ (other : Props) (variants : Table Text) (content : Text),
        other.names = lateVariant.names ∧
          bindSelfClosing content other variants ≠ bindInOrder content other variants) ∧
      chosenClasses? lateVariant .empty = none ∧
      bindSelfClosing "\x7b\x7b a \x7d\x7d" lateVariant .empty =
        bindInOrder "\x7b\x7b a \x7d\x7d" lateVariant .empty ∧
      IsHarmless plainVariant.entries ∧ (∀ e ∈ primaryOnly.entries, '{' ∉ e.2) ∧
      classesName ∉ namesBeforeVariant plainVariant.names ∧
      bindSelfClosing Template.link.text plainVariant primaryOnly =
        bindInOrder Template.link.text plainVariant primaryOnly := by
  have hearly : VariantFirst earlyVariant.names := by decide +kernel
  have hnames : AreAttributeNames lateVariant.names := by decide +kernel
  have hlate : ¬VariantFirst lateVariant.names := by decide +kernel
  have hnone : chosenClasses? lateVariant .empty = none := by decide +kernel
  have hprops : IsHarmless plainVariant.entries := by decide +kernel
  have hvariants : ∀ e ∈ primaryOnly.entries, '{' ∉ e.2 := by decide +kernel
  have hclasses : classesName ∉ namesBeforeVariant plainVariant.names := by decide +kernel
  obtain ⟨hfirst, -, -⟩ := bindSelfClosing_eq_bindInOrder earlyVariant
  obtain ⟨-, hdiffer, hother⟩ := bindSelfClosing_eq_bindInOrder lateVariant
  obtain ⟨-, -, hplain⟩ := bindSelfClosing_eq_bindInOrder plainVariant
  exact ⟨hearly, hfirst hearly primaryOnly _, hnames, hlate, hdiffer hnames hlate, hnone,
    (hother .empty).1 hnone _, hprops, hvariants, hclasses,
    (hplain primaryOnly).2 hprops hvariants hclasses Template.link⟩

/-- The classes go into the hole that a prop before the variant brings in, where nothing should be
left, and a prop of the classes' own name takes their place. -/
theorem bindSelfClosing_out_of_order :
    bindSelfClosing "\x7b\x7b a \x7d\x7d" lateVariant primaryOnly = "btn".toList ∧
      bindInOrder "\x7b\x7b a \x7d\x7d" lateVariant primaryOnly = [] ∧
      bindSelfClosing classesHole (.ofList [(classesName, "manual"), (variantName, "primary")])
          primaryOnly = "manual".toList ∧
      bindInOrder classesHole (.ofList [(classesName, "manual"), (variantName, "primary")])
          primaryOnly = "btn".toList := by
  decide +kernel

end StaticSite.Markup
