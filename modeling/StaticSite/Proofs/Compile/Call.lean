import StaticSite.Compile.Expansion
import StaticSite.Proofs.Markup.Rebuild

/-!
# Calls

A call is a reference taken out of a document. Binding a component's content to it can be done on
the content as a document, and the document that comes out is well-formed again.
-/

namespace StaticSite

open Markup

/-- What can be the props of a call: names are holes and values are plain. -/
def IsPlainProps (props : Props) : Prop := ∀ e ∈ props.entries, IsHoleName e.1 ∧ IsPlain e.2

instance (props : Props) : Decidable (IsPlainProps props) := by
  unfold IsPlainProps
  infer_instance

/-- A document that can be the content of a component: no attribute value is to take children, and
no variant breaks an attribute. -/
structure Markup.Document.IsComponent (d : Document) : Prop where
  wellFormed : d.WellFormed
  no_children : ∀ v ∈ d.values, Text.readFirst? (readHole childrenName) v = none
  plain_classes : ∀ e ∈ (variants d.render).entries, IsPlain e.2

instance (d : Document) : Decidable d.IsComponent :=
  decidable_of_iff (d.WellFormed ∧
      (∀ v ∈ d.values, Text.readFirst? (readHole childrenName) v = none) ∧
      ∀ e ∈ (variants d.render).entries, IsPlain e.2)
    ⟨fun h => ⟨h.1, h.2.1, h.2.2⟩, fun h => ⟨h.1, h.2, h.3⟩⟩

structure Call where
  identifier : Text
  props : Props
  /-- What the reference stands around, if it is not self-closing. -/
  inside : Option Document

namespace Call

def ofSelfClosing (attributes : List (Text × Text)) : Call where
  identifier := ((Table.ofList attributes).get? sourceName).getD []
  props := Table.ofList attributes
  inside := none

def ofAround (identifier : Text) (attributes : List (Text × Text)) (inside : Document) : Call where
  identifier
  props := Table.ofList attributes
  inside := some inside

def form (c : Call) : Form :=
  match c.inside with
  | none => .selfClosing
  | some inside => .around inside.trim.render

/-- The call as a reference that stands at a place of a text. -/
def reference (c : Call) (start : Nat) (source : Text) : Reference where
  form := c.form
  identifier := c.identifier
  props := c.props
  start
  stop := start + source.length
  source

structure WellFormed (c : Call) : Prop where
  plain : IsPlain c.identifier
  plainProps : IsPlainProps c.props
  inside : ∀ d ∈ c.inside, d.WellFormed

theorem isPlainProps_ofList {style : NameStyle} {attributes : List (Text × Text)}
    (h : ∀ a ∈ attributes, IsAttribute style a) : IsPlainProps (Table.ofList attributes) := by
  intro e he
  have hmem := Table.mem_of_mem_ofList he
  exact ⟨(h e hmem).isHoleName, (h e hmem).plain⟩

theorem get?_ofSelfClosing {attributes : List (Text × Text)}
    (h : ∃ a ∈ attributes, a.1 = sourceName) :
    (ofSelfClosing attributes).props.get? sourceName =
      some (ofSelfClosing attributes).identifier := by
  obtain ⟨i, hi⟩ := Option.isSome_iff_exists.mp (Table.isSome_get?_ofList h)
  simp [ofSelfClosing, hi]

theorem wellFormed_ofSelfClosing {attributes : List (Text × Text)}
    (hsource : ∃ a ∈ attributes, a.1 = sourceName)
    (h : ∀ a ∈ attributes, IsAttribute .hyphenated a) : (ofSelfClosing attributes).WellFormed where
  plain := by
    have hmem := Table.mem_of_get?_eq_some (get?_ofSelfClosing hsource)
    exact (isPlainProps_ofList h _ hmem).2
  plainProps := isPlainProps_ofList h
  inside := by simp [ofSelfClosing]

theorem wellFormed_ofAround {identifier : Text} {attributes : List (Text × Text)}
    {inside : Document} (hidentifier : IsIdentifier identifier)
    (h : ∀ a ∈ attributes, IsAttribute .plain a) (hinside : inside.WellFormed) :
    (ofAround identifier attributes inside).WellFormed where
  plain := hidentifier.plain
  plainProps := isPlainProps_ofList h
  inside := by simpa [ofAround] using hinside

/-! ## Binding -/

/-- The hole that one prop of a self-closing reference fills, and with what. -/
def step? (variants : Table Text) : Text × Text → Option (Text × Text)
  | (name, value) =>
      match if name = "variant".toList then variants.get? value else none with
      | some classes => some (classesName, classes)
      | none => if steeringNames.contains name then none else some (name, value)

theorem bindProp_eq (variants : Table Text) (content : Text) (e : Text × Text) :
    bindProp variants content e =
      ((step? variants e).map fun f => fill f.1 f.2 content).getD content := by
  obtain ⟨name, value⟩ := e
  rw [bindProp, step?]
  cases if name = "variant".toList then variants.get? value else none with
  | some classes => rfl
  | none => cases steeringNames.contains name <;> rfl

/-- The holes that a call fills one after another, and with what. -/
def fills (c : Call) (variants : Table Text) : List (Text × Text) :=
  match c.inside with
  | some _ => c.props.entries
  | none => c.props.entries.filterMap (step? variants) ++ [(classesName, [])]

/-- A component's content with the children, props and variant of the call filled in. -/
def bound (c : Call) (content : Document) : Document :=
  (c.fills (variants content.render)).foldl (fun d e => d.fill e.1 e.2)
    (match c.inside with
      | none => content
      | some inside => content.graft inside.trim)

theorem foldl_bindProp (variants : Table Text) (content : Text) (es : List (Text × Text)) :
    es.foldl (bindProp variants) content =
      (es.filterMap (step? variants)).foldl (fun s e => fill e.1 e.2 s) content := by
  rw [List.foldl_filterMap]
  congr
  funext s e
  rw [bindProp_eq]
  cases step? variants e <;> rfl

theorem bind_reference (c : Call) (start : Nat) (source content : Text) :
    Compiler.bind (c.reference start source) content =
      (c.fills (variants content)).foldl (fun s e => fill e.1 e.2 s)
        (match c.inside with
          | none => content
          | some inside => fill childrenName inside.trim.render content) := by
  unfold Compiler.bind reference form fills
  cases c.inside with
  | none =>
      simp only [bindSelfClosing, foldl_bindProp, List.foldl_append, List.foldl_cons,
        List.foldl_nil]
  | some inside => rfl

theorem foldl_fill {es : List (Text × Text)} (hes : ∀ e ∈ es, IsHoleName e.1 ∧ IsPlain e.2)
    {d : Document} (hd : d.WellFormed) :
    (es.foldl (fun d e => d.fill e.1 e.2) d).WellFormed ∧
      (es.foldl (fun d e => d.fill e.1 e.2) d).render =
        es.foldl (fun s e => fill e.1 e.2 s) d.render := by
  induction es generalizing d with
  | nil => exact ⟨hd, rfl⟩
  | cons e es ih =>
      obtain ⟨hname, hvalue⟩ := hes e (by simp)
      have hfilled := ih (fun a ha => hes a (by simp [ha])) (Document.wellFormed_fill e.1 hvalue hd)
      rw [Document.render_fill hname e.2 hd] at hfilled
      exact hfilled

theorem eq_of_step?_eq_some {classes : Table Text} {a e : Text × Text}
    (h : step? classes a = some e) : e = a ∨ ∃ k ∈ classes.entries, e = (classesName, k.2) := by
  obtain ⟨name, value⟩ := a
  unfold step? at h
  cases hget : if name = "variant".toList then classes.get? value else none with
  | some found =>
      simp only [hget, Option.some.injEq] at h
      subst h
      split at hget
      · exact .inr ⟨_, Table.mem_of_get?_eq_some hget, rfl⟩
      · cases hget
  | none =>
      simp only [hget] at h
      split at h
      · cases h
      · exact .inl (Option.some.inj h).symm

theorem plain_fills {c : Call} (hc : c.WellFormed) {classes : Table Text}
    (hclasses : ∀ e ∈ classes.entries, IsPlain e.2) :
    ∀ e ∈ c.fills classes, IsHoleName e.1 ∧ IsPlain e.2 := by
  intro e he
  unfold fills at he
  cases hinside : c.inside with
  | some inside =>
      rw [hinside] at he
      exact hc.plainProps e he
  | none =>
      rw [hinside] at he
      rcases List.mem_append.mp he with he | he
      · obtain ⟨a, ha, hstep⟩ := List.mem_filterMap.mp he
        rcases eq_of_step?_eq_some hstep with rfl | ⟨k, hk, rfl⟩
        · exact hc.plainProps e ha
        · exact ⟨show IsHoleName classesName by decide, hclasses k hk⟩
      · rw [List.mem_singleton.mp he]
        exact ⟨by decide, by simp [IsPlain]⟩

theorem bound_spec {c : Call} (hc : c.WellFormed) {content : Document}
    (hcontent : content.IsComponent) :
    (c.bound content).WellFormed ∧ ∀ start source,
      Compiler.bind (c.reference start source) content.render = (c.bound content).render := by
  have hfills := plain_fills hc hcontent.plain_classes
  cases hinside : c.inside with
  | none =>
      obtain ⟨hwf, hrender⟩ := foldl_fill hfills hcontent.wellFormed
      unfold bound
      rw [hinside]
      refine ⟨hwf, fun start source => ?_⟩
      rw [bind_reference, hinside, hrender]
  | some inside =>
      have hkids := Document.wellFormed_trim (hc.inside inside (by simp [hinside]))
      have hgraft := Document.wellFormed_graft hcontent.wellFormed hkids
      obtain ⟨hwf, hrender⟩ := foldl_fill hfills hgraft
      unfold bound
      rw [hinside]
      refine ⟨hwf, fun start source => ?_⟩
      rw [bind_reference, hinside, hrender,
        Document.render_graft _ hcontent.wellFormed hcontent.no_children]

end Call

end StaticSite
