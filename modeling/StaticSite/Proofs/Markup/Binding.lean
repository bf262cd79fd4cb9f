import Mathlib.Data.List.Forall2
import StaticSite.Proofs.Markup.Template

/-!
# Binding a template

Children, props and class lists are put in one after another, and each filling searches what the
ones before it have written. On a template, with values that open no hole, all this is one
replacement of every hole at once (`clearHoles_bind`): neither the order of the props nor the
blanks inside the braces matter.
-/

namespace StaticSite.Markup

open Text

def variantName : Text := "variant"

/-- The classes of the variant that the props choose, if the component has such a variant. -/
def chosenClasses? (props : Props) (variants : Table Text) : Option Text :=
  (props.get? variantName).bind variants.get?

/-- The pairs that fill a hole of their own name in a self-closing component. -/
def fillings (es : List (Text × Text)) : List (Text × Text) :=
  es.filter fun e => !steeringNames.contains e.1

theorem IsHarmless.fillings {es : List (Text × Text)} (h : IsHarmless es) :
    IsHarmless (fillings es) :=
  fun e he => h e (List.mem_of_mem_filter he)

theorem isHarmless_classes {classes : Text} (h : '{' ∉ classes) :
    IsHarmless [(classesName, classes)] := by
  intro e he
  cases List.mem_singleton.mp he
  exact ⟨(by decide : IsHoleName classesName), h⟩

theorem fillings_cons (e : Text × Text) (es : List (Text × Text)) :
    fillings (e :: es) = if e.1 ∈ steeringNames then fillings es else e :: fillings es := by
  by_cases h : e.1 ∈ steeringNames <;> simp [fillings, h]

theorem valueIn_fillings (es : List (Text × Text)) (name : Text) :
    valueIn (fillings es) name = if name ∈ steeringNames then none else valueIn es name := by
  induction es with
  | nil => simp [fillings, valueIn]
  | cons e es ih =>
      rw [fillings_cons]
      by_cases hname : name = e.1
      · subst hname
        by_cases hsteers : e.1 ∈ steeringNames <;> simp [valueIn_cons, ih, hsteers]
      · by_cases hsteers : e.1 ∈ steeringNames <;> simp [valueIn_cons, ih, hsteers, hname]

theorem valueIn_eq_none {es : List (Text × Text)} {name : Text} (h : ∀ e ∈ es, e.1 ≠ name) :
    valueIn es name = none := by
  simpa [valueIn, List.find?_eq_none] using h

theorem fillings_append (es fs : List (Text × Text)) :
    fillings (es ++ fs) = fillings es ++ fillings fs :=
  List.filter_append _ _

/-- What is filled in, one after another, where the classes come between two runs of props. -/
def fillingsAround (before : List (Text × Text)) (classes : Text) (after : List (Text × Text)) :
    List (Text × Text) :=
  fillings before ++ (classesName, classes) :: fillings after ++ [(classesName, [])]

theorem isHarmless_fillingsAround {before after : List (Text × Text)} {classes : Text}
    (hbefore : IsHarmless before) (hclasses : '{' ∉ classes) (hafter : IsHarmless after) :
    IsHarmless (fillingsAround before classes after) :=
  isHarmless_append.mpr ⟨isHarmless_append.mpr ⟨hbefore.fillings,
    isHarmless_append.mpr ⟨isHarmless_classes hclasses, hafter.fillings⟩⟩,
    isHarmless_classes List.not_mem_nil⟩

theorem valueIn_fillingsAround (before : List (Text × Text)) (classes : Text)
    (after : List (Text × Text)) (name : Text) :
    valueIn (fillingsAround before classes after) name =
      (valueIn (fillings before) name).or
        (if name = classesName then some classes else valueIn (fillings after) name) := by
  rw [fillingsAround, List.append_assoc, List.cons_append, valueIn_append, valueIn_cons,
    valueIn_append, valueIn_cons]
  by_cases hclass : name = classesName <;> simp [hclass, valueIn]

/-! ## Self-closing components -/

section SelfClosing

variable {props : Props} {variants : Table Text}

theorem bindProp_of_not_chosen {e : Text × Text}
    (h : e.1 = variantName → variants.get? e.2 = none) (content : Text) :
    bindProp variants content e =
      if e.1 ∈ steeringNames then content else fill e.1 e.2 content := by
  obtain ⟨name, value⟩ := e
  have hnone : (if name = "variant".toList then variants.get? value else none) = none := by
    split
    · exact h ‹_›
    · rfl
  rw [bindProp, hnone]
  exact if_congr List.contains_iff_mem rfl rfl

theorem bindProp_of_chosen {v classes : Text} (hv : variants.get? v = some classes)
    (content : Text) :
    bindProp variants content (variantName, v) = fill classesName classes content := by
  have hsome : (if variantName = "variant".toList then variants.get? v else none) = some classes :=
    (if_pos rfl).trans hv
  rw [bindProp, hsome]

theorem foldl_bindProp_of_not_chosen {es : List (Text × Text)}
    (h : ∀ e ∈ es, e.1 = variantName → variants.get? e.2 = none) (content : Text) :
    es.foldl (bindProp variants) content = fillEach (fillings es) content := by
  induction es generalizing content with
  | nil => rfl
  | cons e es ih =>
      rw [List.foldl_cons, ih (fun a ha => h a (List.mem_cons_of_mem e ha)),
        bindProp_of_not_chosen (h e List.mem_cons_self), fillings_cons]
      split <;> rfl

/-- Where the props choose no variant, each prop fills its own hole. -/
theorem bindSelfClosing_of_not_chosen (h : chosenClasses? props variants = none) (content : Text) :
    bindSelfClosing content props variants =
      fillEach (fillings props.entries ++ [(classesName, [])]) content := by
  rw [bindSelfClosing, foldl_bindProp_of_not_chosen, fillEach_append]
  · rfl
  · intro e he hname
    have hget := Table.get?_of_mem he
    rw [hname] at hget
    simpa [chosenClasses?, hget] using h

variable {before after : List (Text × Text)} {v classes : Text}

/-- Where they do, the classes are filled in between the props that stand before the variant and
those that stand after it. -/
theorem bindSelfClosing_of_chosen (hprops : props.entries = before ++ (variantName, v) :: after)
    (hv : variants.get? v = some classes) (content : Text) :
    bindSelfClosing content props variants =
      fillEach (fillingsAround before classes after) content := by
  have hdistinct := props.distinct
  rw [hprops, List.map_append, List.map_cons, List.nodup_append, List.nodup_cons] at hdistinct
  obtain ⟨-, ⟨hafter, -⟩, hapart⟩ := hdistinct
  have hbefore : ∀ e ∈ before, e.1 ≠ variantName := fun e he =>
    hapart e.1 (List.mem_map_of_mem he) variantName List.mem_cons_self
  have hlater : ∀ e ∈ after, e.1 ≠ variantName := fun e he heq =>
    hafter (List.mem_map.mpr ⟨e, he, heq⟩)
  rw [bindSelfClosing, hprops, List.foldl_append, List.foldl_cons, bindProp_of_chosen hv,
    foldl_bindProp_of_not_chosen fun e he heq => absurd heq (hbefore e he),
    foldl_bindProp_of_not_chosen fun e he heq => absurd heq (hlater e he), fillingsAround]
  simp

theorem exists_split_of_chosen (h : chosenClasses? props variants = some classes) :
    ∃ before v after, props.entries = before ++ (variantName, v) :: after ∧
      variants.get? v = some classes := by
  obtain ⟨v, hget, hv⟩ := Option.bind_eq_some_iff.mp h
  obtain ⟨before, after, hprops⟩ := List.append_of_mem (Table.mem_of_get?_eq_some hget)
  exact ⟨before, v, after, hprops, hv⟩

end SelfClosing

/-! ## All holes at once -/

/-- What a hole of a component with children shows. -/
def valueAround (children : Text) (props : Props) (name : Text) : Text :=
  if name = childrenName then children else (props.get? name).getD []

/-- What a hole of a self-closing component shows. -/
def valueSelfClosing (props : Props) (variants : Table Text) (name : Text) : Text :=
  if name = classesName then (chosenClasses? props variants).getD []
  else if name ∈ steeringNames then [] else (props.get? name).getD []

/-- Stretches that differ in nothing but the blanks inside a hole. -/
inductive Stretch.Alike : Stretch → Stretch → Prop
  | literal (s : Text) (h h' : '{' ∉ s) : Alike (.literal s h) (.literal s h')
  | hole {h h' : Hole} (hname : h.name = h'.name) : Alike (.hole h) (.hole h')

namespace Template

theorem filled_congr {t u : Template} (h : List.Forall₂ Stretch.Alike t u) (value : Text → Text) :
    t.filled value = u.filled value := by
  induction h with
  | nil => rfl
  | cons hstretch _ ih =>
      simp only [filled, written, List.flatMap_cons] at ih ⊢
      rw [ih]
      cases hstretch with
      | literal => rfl
      | hole hname => simp only [Stretch.written, Option.getD_some, hname]

theorem HasWordNames.of_alike {t u : Template} (h : List.Forall₂ Stretch.Alike t u)
    (hwords : t.HasWordNames) : u.HasWordNames := by
  induction h with
  | nil => exact hwords
  | cons hstretch _ ih =>
      obtain ⟨hfirst, hrest⟩ := List.forall_mem_cons.mp hwords
      refine List.forall_mem_cons.mpr ⟨?_, ih hrest⟩
      cases hstretch with
      | literal => trivial
      | hole hname =>
          simp only [Stretch.HasWordName, hname] at hfirst ⊢
          exact hfirst

section Bind

variable {t : Template} {children : Text} {props : Props} {variants : Table Text}

theorem clearHoles_bindChildren (hwords : t.HasWordNames) (hchildren : '{' ∉ children)
    (hprops : IsHarmless props.entries) :
    clearHoles (bindChildren t.text children props) = t.filled (valueAround children props) := by
  have hname : IsHoleName childrenName := by decide
  have hharmless : IsHarmless ((childrenName, children) :: props.entries) :=
    isHarmless_cons.mpr ⟨⟨hname, hchildren⟩, hprops⟩
  have hfirst : bindChildren t.text children props =
      fillEach ((childrenName, children) :: props.entries) t.text := rfl
  rw [hfirst, clearHoles_fillEach hharmless hwords]
  congr 1
  funext name
  rw [valueIn_cons, valueAround]
  by_cases hname : name = childrenName
  · simp only [hname, if_true, Option.some_or, Option.getD_some]
  · simp only [hname, if_false, Option.none_or]
    rfl

/-- The classes are filled in where the variant stands among the props; the holes do not show it. -/
theorem clearHoles_bindSelfClosing (hwords : t.HasWordNames) (hprops : IsHarmless props.entries)
    (hvariants : ∀ e ∈ variants.entries, '{' ∉ e.2) (hclasses : props.get? classesName = none) :
    clearHoles (bindSelfClosing t.text props variants) =
      t.filled (valueSelfClosing props variants) := by
  have hfills : classesName ∉ steeringNames := by decide
  have hlast : IsHarmless [(classesName, [])] := isHarmless_classes List.not_mem_nil
  cases hchosen : chosenClasses? props variants with
  | none =>
      have hharmless : IsHarmless (fillings props.entries ++ [(classesName, [])]) :=
        isHarmless_append.mpr ⟨hprops.fillings, hlast⟩
      rw [bindSelfClosing_of_not_chosen hchosen, clearHoles_fillEach hharmless hwords]
      congr 1
      funext name
      rw [getD_valueIn_append_nil, valueIn_fillings, valueSelfClosing, hchosen]
      by_cases hclass : name = classesName
      · have hnone : valueIn props.entries name = none := hclass ▸ hclasses
        simp only [hclass, hfills, if_true, if_false]
        rw [← hclass, hnone]
      · by_cases hsteers : name ∈ steeringNames
        · simp only [hclass, hsteers, if_true, if_false, Option.getD_none]
        · simp only [hclass, hsteers, if_false]
          rfl
  | some classes =>
      obtain ⟨before, v, after, hentries, hv⟩ := exists_split_of_chosen hchosen
      have hplain : '{' ∉ classes := hvariants _ (Table.mem_of_get?_eq_some hv)
      have hparts := hprops
      rw [hentries, isHarmless_append, isHarmless_cons] at hparts
      obtain ⟨hbefore, -, hafter⟩ := hparts
      have hharmless := isHarmless_fillingsAround hbefore hplain hafter
      rw [bindSelfClosing_of_chosen hentries hv, clearHoles_fillEach hharmless hwords]
      have hget : ∀ name, props.get? name = (valueIn before name).or
          ((if name = variantName then some v else none).or (valueIn after name)) := by
        intro name
        rw [← valueIn_cons (variantName, v), ← valueIn_append, ← hentries]
        rfl
      have hnone : valueIn before classesName = none :=
        (Option.or_eq_none_iff.mp (hget classesName ▸ hclasses)).1
      congr 1
      funext name
      rw [valueIn_fillingsAround, valueIn_fillings, valueIn_fillings, valueSelfClosing, hchosen]
      by_cases hclass : name = classesName
      · simp only [hclass, hfills, hnone, if_true, if_false, Option.none_or]
      · by_cases hsteers : name ∈ steeringNames
        · simp only [hclass, hsteers, if_true, if_false, Option.none_or, Option.getD_none]
        · have hvariant : name ≠ variantName := fun heq => hsteers (heq ▸ by decide)
          simp only [hclass, hsteers, hvariant, hget, if_false, Option.none_or]

/-- Binding a component and then emptying what is left replaces every hole of its template at once:
a hole for children by the children, any other one by the prop of its name, if there is one; in a
self-closing component a hole for classes by those of the chosen variant, and the names that steer
fill nothing. So it does not matter in which order the props come, nor which blanks stand inside
the braces. -/
theorem clearHoles_bind (hwords : t.HasWordNames) (hchildren : '{' ∉ children)
    (hprops : IsHarmless props.entries) (hvariants : ∀ e ∈ variants.entries, '{' ∉ e.2) :
    clearHoles (bindChildren t.text children props) = t.filled (valueAround children props) ∧
      (props.get? classesName = none →
        clearHoles (bindSelfClosing t.text props variants) =
          t.filled (valueSelfClosing props variants)) ∧
      ∀ (u : Template) (other : Props), List.Forall₂ Stretch.Alike t u →
        (∀ name, other.get? name = props.get? name) →
        clearHoles (bindChildren u.text children other) =
            clearHoles (bindChildren t.text children props) ∧
          (props.get? classesName = none →
            clearHoles (bindSelfClosing u.text other variants) =
              clearHoles (bindSelfClosing t.text props variants)) := by
  refine ⟨clearHoles_bindChildren hwords hchildren hprops,
    clearHoles_bindSelfClosing hwords hprops hvariants, fun u other halike hsame => ?_⟩
  have huwords := hwords.of_alike halike
  have hother : IsHarmless other.entries := by
    intro e he
    apply hprops
    apply Table.mem_of_get?_eq_some
    rw [← hsame, Table.get?_of_mem he]
  have haround : valueAround children other = valueAround children props := by
    funext name
    rw [valueAround, valueAround, hsame]
  have hselfClosing : valueSelfClosing other variants = valueSelfClosing props variants := by
    funext name
    rw [valueSelfClosing, valueSelfClosing, chosenClasses?, chosenClasses?, hsame, hsame]
  constructor
  · rw [clearHoles_bindChildren huwords hchildren hother,
      clearHoles_bindChildren hwords hchildren hprops, haround, filled_congr halike]
  · intro hclasses
    rw [clearHoles_bindSelfClosing huwords hother hvariants ((hsame classesName).trans hclasses),
      clearHoles_bindSelfClosing hwords hprops hvariants hclasses, hselfClosing,
      filled_congr halike]

end Bind

/-- A template with holes side by side, with and without blanks, one for classes and one that
nothing fills. -/
def link : Template :=
  [.literal "<a class='" (by decide),
    .hole ⟨[], classesName, [], by decide, by decide, by decide, by decide⟩,
    .literal "'>" (by decide),
    .hole ⟨" ", "title", "\t", by decide, by decide, by decide, by decide⟩,
    .hole ⟨[], childrenName, "  ", by decide, by decide, by decide, by decide⟩,
    .hole ⟨" ", "gone", [], by decide, by decide, by decide, by decide⟩,
    .literal "</a>" (by decide)]

def linkProps : Props := .ofList [("title", "$&\\1"), (variantName, "main"), ("src", "Link")]

def linkVariants : Table Text := .ofList [("main", "btn btn-main")]

theorem clearHoles_bind_link :
    link.text = "<a class='\x7b\x7bvariantClasses\x7d\x7d'>".toList ++
        "\x7b\x7b title\t\x7d\x7d\x7b\x7bchildren  \x7d\x7d\x7b\x7b gone\x7d\x7d</a>".toList ∧
      link.HasWordNames ∧ '{' ∉ "\\g<0>".toList ∧ IsHarmless linkProps.entries ∧
      (∀ e ∈ linkVariants.entries, '{' ∉ e.2) ∧ linkProps.get? classesName = none ∧
      clearHoles (bindChildren link.text "\\g<0>" linkProps) =
        "<a class=''>$&\\1\\g<0></a>".toList ∧
      clearHoles (bindSelfClosing link.text linkProps linkVariants) =
        "<a class='btn btn-main'>$&\\1</a>".toList := by
  have hwords : link.HasWordNames := by decide +kernel
  have hchildren : '{' ∉ "\\g<0>".toList := by decide
  have hprops : IsHarmless linkProps.entries := by decide +kernel
  have hvariants : ∀ e ∈ linkVariants.entries, '{' ∉ e.2 := by decide +kernel
  have hclasses : linkProps.get? classesName = none := by decide +kernel
  obtain ⟨haround, hselfClosing, -⟩ := clearHoles_bind hwords hchildren hprops hvariants
  refine ⟨by decide +kernel, hwords, hchildren, hprops, hvariants, hclasses, ?_, ?_⟩
  · rw [haround]
    decide +kernel
  · rw [hselfClosing hclasses]
    decide +kernel

end Template

end StaticSite.Markup
