import StaticSite.Proofs.Compile.Answers

/-!
# Tables of documents

A table of rendered documents answers by the identifier alone.
-/

namespace StaticSite

open Markup

namespace Table

variable {α β : Type}

theorem get?_foldl_set_map (f : α → β) {es : List (Text × α)} {t : Table α} {u : Table β}
    (h : ∀ name, u.get? name = (t.get? name).map f) (name : Text) :
    ((es.map fun e => (e.1, f e.2)).foldl (fun u e => u.set e.1 e.2) u).get? name =
      ((es.foldl (fun t e => t.set e.1 e.2) t).get? name).map f := by
  induction es generalizing t u with
  | nil => exact h name
  | cons e es ih =>
      refine ih fun other => ?_
      rw [get?_set, get?_set]
      by_cases he : e.1 = other
      · simp [he]
      · simp [he, h other]

theorem get?_ofList_map (f : α → β) (es : List (Text × α)) (name : Text) :
    (ofList (es.map fun e => (e.1, f e.2))).get? name = ((ofList es).get? name).map f :=
  get?_foldl_set_map f (fun _ => rfl) name

end Table

/-- What a list of documents has under an identifier. -/
def contentOf (documents : List (Text × Document)) (identifier : Text) : Option Document :=
  (Table.ofList (documents.map fun e => (normalize e.1, e.2))).get? (normalize identifier)

def Provider.ofDocuments (documents : List (Text × Document)) : Provider :=
  .ofEntries (documents.map fun e => (e.1, .text e.2.render))

theorem isComponent_of_contentOf {documents : List (Text × Document)}
    (h : ∀ e ∈ documents, e.2.IsComponent) {identifier : Text} {content : Document}
    (hcontent : contentOf documents identifier = some content) : content.IsComponent := by
  have hmem := Table.mem_of_mem_ofList (Table.mem_of_get?_eq_some hcontent)
  obtain ⟨e, he, heq⟩ := List.mem_map.mp hmem
  rw [← (Prod.mk.inj heq).2]
  exact h e he

theorem get?_ofDocuments (documents : List (Text × Document)) (identifier : Text) :
    (Table.ofList ((documents.map fun e => (e.1, Value.text e.2.render)).map
      fun e => (normalize e.1, e.2))).get? (normalize identifier) =
        (contentOf documents identifier).map fun d => .text d.render := by
  rw [contentOf, ← Table.get?_ofList_map, List.map_map, List.map_map]
  rfl

theorem serves_ofDocuments (documents : List (Text × Document)) (reenter : Engine.Reentry)
    (files : SiteTree) : (Provider.ofDocuments documents).Serves reenter files
      fun identifier _ answer => answer = contentOf documents identifier := by
  intro identifier props _ _ s
  refine ⟨contentOf documents identifier, rfl, ?_⟩
  have hget := get?_ofDocuments documents identifier
  rw [Provider.ofDocuments, Provider.ofEntries, Provider.resolve, Provider.resolveTable, hget]
  cases contentOf documents identifier with
  | none => exact ⟨_, rfl, rfl⟩
  | some content => rfl

end StaticSite
