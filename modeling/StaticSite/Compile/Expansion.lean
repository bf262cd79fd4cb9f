import StaticSite.Component.Provider
import StaticSite.Markup.Placeholder
import StaticSite.Markup.Reference
import StaticSite.Markup.Variant

/-!
# Expansion

Compiling replaces every reference to a component by the component's content, itself compiled.
References with children come first; what they leave is searched for self-closing ones. A
component that is missing or fails, or lies too deep, becomes a comment that says so.

`Compiler.expandAll` is one level: how the content of a component is compiled in its own context
is a parameter. `Compiler.compileWithin` ties the knot by the room left for deeper levels.
-/

namespace StaticSite

open Markup

def notFoundMarker (identifier : Text) : Text :=
  "<!-- Component \"" ++ identifier ++ "\" not found -->"

def depthMarker (identifier : Text) (maxDepth : Int) : Text :=
  "<!-- Component \"" ++ identifier ++ "\" exceeded maximum nesting depth (" ++
    Text.ofInt maxDepth ++ ") -->"

structure Compiler where
  provider : Provider
  maxDepth : Int

/-- The text with each span replaced in turn, where `rest` is the text from `position` on. -/
def splice {α : Type} (start stop : α → Nat) (expand : α → Engine Text) :
    Nat → Text → List α → Engine Text
  | _, rest, [] => pure rest
  | position, rest, a :: as => do
      let expansion ← expand a
      let tail ← splice start stop expand (stop a) (rest.drop (stop a - position)) as
      return rest.take (start a - position) ++ expansion ++ tail

namespace Compiler

abbrev Inner := Context → Text → Engine Text

/-- The content of a component for a reference, before its own references are expanded. -/
def content (c : Compiler) (reenter : Engine.Reentry) (ctx : Context) (r : Reference) :
    Engine Text := do
  Engine.ofExcept (ctx.checkDepth r.identifier)
  let source ← c.provider.resolve reenter r.identifier
  source.render reenter r.props

theorem content_of_room {c : Compiler} {reenter : Engine.Reentry} {ctx : Context}
    (hroom : ctx.room ≠ 0) (r : Reference) :
    c.content reenter ctx r =
      (do (← c.provider.resolve reenter r.identifier).render reenter r.props) := by
  rw [content, Context.checkDepth, if_neg hroom]
  rfl

/-- A component's content with the reference's children, props and variant filled in. -/
def bind (r : Reference) (content : Text) : Text :=
  match r.form with
  | .around children => bindChildren content children r.props
  | .selfClosing => bindSelfClosing content r.props (variants content)

/-- The comment that stands for a reference of which the content could not be had, if the fault
is one that a page shows. -/
def markerFor? (r : Reference) : Fault → Option Text
  | .depthExceeded _ maxDepth _ => some (depthMarker r.identifier maxDepth)
  | .producerFailed .. => some (notFoundMarker r.identifier)
  | .componentNotFound .. => some (notFoundMarker r.identifier)
  | _ => none

theorem markerFor?_of_isMissing {fault : Fault} (h : fault.isMissing) (r : Reference) :
    markerFor? r fault = some (notFoundMarker r.identifier) := by
  cases fault <;> simp_all [Fault.isMissing, markerFor?]

def expand (c : Compiler) (reenter : Engine.Reentry) (inner : Inner) (ctx : Context)
    (r : Reference) : Engine Text := do
  match ← Engine.attempt (c.content reenter ctx r) with
  | .ok content =>
      let child := ctx.child r.identifier
      Engine.within child (inner child (bind r content))
  | .error fault =>
      match markerFor? r fault with
      | some marker => do
          Engine.record .error .compiler fault.message
          return marker
      | none => throw fault

/-- What a tag of self-closing shape is replaced by: a malformed one stays. -/
def expandTag (c : Compiler) (reenter : Engine.Reentry) (inner : Inner) (ctx : Context)
    (tag : Text.Span Unit) : Engine Text :=
  match selfClosingReference? tag with
  | some r => c.expand reenter inner ctx r
  | none => do
      Engine.record .debug .compiler
        ("Skipping malformed component tag: " ++ Text.quoted tag.source)
      return tag.source

def expandChildren (c : Compiler) (reenter : Engine.Reentry) (inner : Inner) (ctx : Context)
    (html : Text) : Engine Text :=
  splice Reference.start Reference.stop (c.expand reenter inner ctx) 0 html (childReferences html)

def expandSelfClosing (c : Compiler) (reenter : Engine.Reentry) (inner : Inner) (ctx : Context)
    (html : Text) : Engine Text :=
  splice Text.Span.start Text.Span.stop (c.expandTag reenter inner ctx) 0 html
    (selfClosingTags html)

def expandAll (c : Compiler) (reenter : Engine.Reentry) (inner : Inner) (ctx : Context)
    (html : Text) : Engine Text := do
  c.expandSelfClosing reenter inner ctx (← c.expandChildren reenter inner ctx html)

/-- Expansion with room for so many deeper levels. In a context without room every component is
refused before its content is compiled, so what is given for that case is never asked. -/
def compileWithin (c : Compiler) (reenter : Engine.Reentry) : Nat → Inner
  | 0 => c.expandAll reenter fun _ html => pure html
  | room + 1 => c.expandAll reenter (c.compileWithin reenter room)

theorem exists_compileWithin_eq (c : Compiler) (reenter : Engine.Reentry) (room : Nat) :
    ∃ inner, ∀ ctx html, c.compileWithin reenter room ctx html =
      c.expandAll reenter inner ctx html := by
  cases room with
  | zero => exact ⟨fun _ html => pure html, fun _ _ => rfl⟩
  | succ room => exact ⟨c.compileWithin reenter room, fun _ _ => rfl⟩

def compileIn (c : Compiler) (reenter : Engine.Reentry) (ctx : Context) (html : Text) :
    Engine Text :=
  c.compileWithin reenter ctx.room ctx html

/-- Compiles a page, with so many compiles nested in its producers allowed. -/
def compileNested (c : Compiler) : Nat → Text → Option Text → Engine Text
  | 0, _, _ => throw .nestedTooDeep
  | nesting + 1, html, page =>
      let ctx := Context.top c.maxDepth page
      Engine.within ctx (c.compileIn (c.compileNested nesting) ctx html)

/-- Compiles nested in producers of compiles, and so on, go no deeper than this. The number stands
for the depth at which a runtime's stack is full. That is a matter of the machine and depends on the
site's code as well, so nothing is proved that would not hold of any other number. -/
def nestingLimit : Nat := 100

/-- A compile as a site's code can ask for it. -/
def reenter (c : Compiler) : Engine.Reentry := c.compileNested nestingLimit

/-- Compiles a page: every reference to a component is expanded. -/
def compile (c : Compiler) (html : Text) (page : Option Text) : Engine Text :=
  c.compileNested (nestingLimit + 1) html page

end Compiler

end StaticSite
