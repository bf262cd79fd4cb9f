import Mathlib.Data.List.Nodup
import StaticSite.Proofs.Compile.Faults
import StaticSite.Proofs.Compile.Limit
import StaticSite.Proofs.Compile.Twice
import StaticSite.Proofs.Component.Identifiers

/-!
# Cycles of components

Where components refer to each other in a cycle, following them ends at the greatest depth and
nowhere else. Each level of the compile puts one more beginning in front and one more end behind,
and the component for which there is no room any more gives way to a comment.
-/

namespace StaticSite

open Markup Engine

namespace Table

variable {α : Type} {es : List (Text × α)}

/-- A list that has each name once is its own table. -/
theorem get?_ofList_of_mem (hnames : (es.map (·.1)).Nodup) {e : Text × α} (he : e ∈ es) :
    (ofList es).get? e.1 = some e.2 := by
  obtain ⟨value, hvalue⟩ := Option.isSome_iff_exists.mp (isSome_get?_ofList ⟨e, he, rfl⟩)
  have hmem := mem_of_mem_ofList (mem_of_get?_eq_some hvalue)
  have hsame := List.inj_on_of_nodup_map hnames hmem he rfl
  rw [hvalue, ← hsame]

end Table

/-! ## Links and cycles -/

/-- A component that refers to one other: texts without holes and without component tags, before
and after the reference. -/
structure Link where
  identifier : Text
  before : Text
  after : Text
  plain : IsPlain identifier ∧ '{' ∉ identifier ∧ '\\' ∉ identifier
  inert_before : isOrdinary before ∧ '{' ∉ before
  inert_after : isOrdinary after ∧ '{' ∉ after

/-- Components each of which refers to the next one, and the last to the first. -/
structure Cycle where
  links : List Link
  ne_nil : links ≠ []
  distinct : (links.map Link.identifier).Nodup

def componentTag (identifier : Text) : Text := "<Component src=\"" ++ identifier ++ "\" />"

theorem componentTag_eq (identifier : Text) :
    componentTag identifier = renderSelfClosing [(sourceName, identifier)] := by
  have hopen : "<Component src=\"".toList =
      "<Component".toList ++ (' ' :: sourceName ++ "=\"".toList) := by decide
  have hclose : "\" />".toList = "\"".toList ++ " />".toList := by decide
  unfold componentTag renderSelfClosing renderAttributes
  rw [hopen, hclose, List.flatMap_cons, List.flatMap_nil]
  simp only [List.append_assoc, List.cons_append, List.append_nil]

theorem notMem_componentTag {identifier : Text} (h : '{' ∉ identifier) :
    '{' ∉ componentTag identifier := by
  unfold componentTag
  rw [List.mem_append, List.mem_append, not_or, not_or]
  exact ⟨⟨by decide, h⟩, by decide⟩

namespace Cycle

variable (c : Cycle)

/-- The component that is reached after so many steps from the first. -/
def link (i : Nat) : Link :=
  c.links.get ⟨i % c.links.length, Nat.mod_lt i (List.length_pos_of_ne_nil c.ne_nil)⟩

def content (i : Nat) : Text :=
  (c.link i).before ++ (componentTag (c.link (i + 1)).identifier ++ (c.link i).after)

def entries : List (Text × Value) :=
  (List.range c.links.length).map fun i => ((c.link i).identifier, .text (c.content i))

def provider : Provider := .ofEntries c.entries

theorem link_mod (i : Nat) : c.link (i % c.links.length) = c.link i := by
  unfold link
  simp only [Nat.mod_mod]

theorem content_mod (i : Nat) : c.content (i % c.links.length) = c.content i := by
  have hnext : c.link (i % c.links.length + 1) = c.link (i + 1) := by
    rw [← link_mod, Nat.mod_add_mod, link_mod]
  rw [content, content, link_mod, hnext]

theorem map_link : (List.range c.links.length).map c.link = c.links := by
  apply List.ext_getElem
  · rw [List.length_map, List.length_range]
  · intro i _ hi
    rw [List.getElem_map, List.getElem_range]
    simp only [link, Nat.mod_eq_of_lt hi, List.get_eq_getElem]

theorem notMem_content (i : Nat) : '{' ∉ c.content i := by
  rw [content, List.mem_append, List.mem_append, not_or, not_or]
  exact ⟨(c.link i).inert_before.2, notMem_componentTag (c.link (i + 1)).plain.2.1,
    (c.link i).inert_after.2⟩

theorem get?_entries (i : Nat) :
    (Table.ofList (c.entries.map fun e => (normalize e.1, e.2))).get? (c.link i).identifier =
      some (.text (c.content i)) := by
  have hkeys : c.entries.map (fun e => (normalize e.1, e.2)) = c.entries := by
    conv_rhs => rw [← List.map_id c.entries]
    refine List.map_congr_left fun e he => ?_
    obtain ⟨j, -, rfl⟩ := List.mem_map.mp he
    rw [normalize_of_notMem (c.link j).plain.2.2]
    rfl
  have hnames : (c.entries.map (·.1)).Nodup := by
    have hmap : c.entries.map (·.1) = c.links.map Link.identifier := by
      conv_rhs => rw [← c.map_link]
      rw [entries, List.map_map, List.map_map]
      rfl
    rw [hmap]
    exact c.distinct
  have hmem : ((c.link i).identifier, Value.text (c.content i)) ∈ c.entries := by
    refine List.mem_map.mpr ⟨i % c.links.length, ?_, by rw [link_mod, content_mod]⟩
    exact List.mem_range.mpr (Nat.mod_lt i (List.length_pos_of_ne_nil c.ne_nil))
  rw [hkeys]
  exact Table.get?_ofList_of_mem hnames hmem

/-! ### Following a cycle -/

/-- Where the compile is after so many steps. -/
def context (maxDepth : Nat) (page : Option Text) (i : Nat) : Context :=
  ⟨i, maxDepth, (List.range i).map fun j => (c.link j).identifier, page⟩

/-- What stands for a component when there is room for so many more. -/
def nested (maxDepth : Nat) : Nat → Nat → Text
  | 0, i => depthMarker (c.link i).identifier maxDepth
  | room + 1, i => (c.link i).before ++ (nested maxDepth room (i + 1) ++ (c.link i).after)

/-- What is logged where the depth is met. -/
def refusal (maxDepth : Nat) : LogRecord :=
  ⟨.error, .compiler, (Fault.depthExceeded (c.link maxDepth).identifier maxDepth
    ((List.range (maxDepth + 1)).map fun i => (c.link i).identifier)).message⟩

variable {maxDepth : Nat} {page : Option Text} {files : SiteTree} {reenter : Reentry}

theorem context_child (i : Nat) :
    (c.context maxDepth page i).child (c.link i).identifier = c.context maxDepth page (i + 1) := by
  simp only [context, Context.child, List.range_succ, List.map_append]
  rfl

theorem room_context {room i : Nat} (h : i + room = maxDepth) :
    (c.context maxDepth page i).room = room := by
  simp only [context, Context.room]
  omega

/-- The beginnings stand in the order of the steps, the ends in the opposite one. -/
theorem nested_eq (room i : Nat) :
    c.nested maxDepth room i = (List.range' i room).flatMap (fun j => (c.link j).before) ++
      (depthMarker (c.link (i + room)).identifier maxDepth ++
        (List.range' i room).reverse.flatMap fun j => (c.link j).after) := by
  induction room generalizing i with
  | zero => simp [nested]
  | succ room ih =>
      rw [nested, ih, List.range'_succ, List.flatMap_cons, List.reverse_cons, List.flatMap_append,
        Nat.add_right_comm, Nat.add_assoc]
      simp only [List.append_assoc, List.flatMap_cons, List.flatMap_nil, List.append_nil]

/-- Where there is room the provider is asked once, and has the component. -/
theorem exec_content {ctx : Context} {r : Reference} {i : Nat} (s : Session) (hroom : ctx.room ≠ 0)
    (hr : r.identifier = (c.link i).identifier) :
    ((Compiler.mk c.provider maxDepth).content reenter ctx r).exec files s =
      (.ok (c.content i),
        { s with trace := s.trace ++ [(s.context, .asked (c.link i).identifier)] }) := by
  rw [Compiler.content_of_room hroom, hr]
  simp only [provider, Provider.ofEntries, Provider.resolve, Provider.resolveTable,
    normalize_of_notMem (c.link i).plain.2.2, get?_entries]
  rfl

theorem content_eq_render (i : Nat) : c.content i =
    (tagIn (c.link i).before (c.link (i + 1)).identifier (c.link i).after).render := by
  rw [content, componentTag_eq, render_tagIn]

/-- Where there is room a reference gives way to what compiling the component's content gives. -/
theorem exec_expand {inner : Compiler.Inner} {i : Nat} (s : Session) (position : Nat)
    (hroom : (c.context maxDepth page i).room ≠ 0) :
    ((Compiler.mk c.provider maxDepth).expand reenter inner (c.context maxDepth page i)
        (bareReference position (c.link i).identifier)).exec files s =
      (Engine.within (c.context maxDepth page (i + 1))
        (inner (c.context maxDepth page (i + 1)) (c.content i))).exec files
        { s with trace := s.trace ++ [(s.context, .asked (c.link i).identifier)] } := by
  have hidentifier := identifier_bareReference position (c.link i).identifier
  rw [Compiler.expand, exec_bind, exec_attempt, c.exec_content s hroom hidentifier]
  simp only [hidentifier, context_child, Compiler.bind_of_notMem (c.notMem_content i)]

/-- The induction is on the room. Each step asks for one component and goes on inside its content,
and the last one is refused. -/
theorem exec_compileWithin (reenter : Reentry) (page : Option Text) (files : SiteTree)
    {room i : Nat} {before after : Text} (s : Session) (h : i + room = maxDepth)
    (hbefore : isOrdinary before) (hafter : isOrdinary after) :
    ∃ asked, ((Compiler.mk c.provider maxDepth).compileWithin reenter room
        (c.context maxDepth page i) (tagIn before (c.link i).identifier after).render).exec
          files s =
      (.ok (before ++ (c.nested maxDepth room i ++ after)),
        { s with
          log := s.log ++ [c.refusal maxDepth]
          trace := s.trace ++ asked }) ∧
      asked.map Prod.snd = (List.range' i room).map fun j => .asked (c.link j).identifier := by
  have hroom : (c.context maxDepth page i).room = room := c.room_context h
  induction room generalizing i before after s with
  | zero =>
      obtain rfl : i = maxDepth := h
      refine ⟨[], ?_, rfl⟩
      rw [Compiler.compileWithin, Compiler.expandAll_tagIn (c.link i).plain.1 hbefore hafter,
        ← bind_pure_comp, exec_bind, Compiler.exec_expand_of_no_room hroom,
        identifier_bareReference]
      simp only [context, nested, refusal, List.range_succ, List.map_append, List.append_nil]
      rfl
  | succ room ih =>
      have hne : (c.context maxDepth page i).room ≠ 0 := by omega
      have hnext : i + 1 + room = maxDepth := by omega
      obtain ⟨asked, hexec, hasked⟩ := ih
        { s with
          context := some (c.context maxDepth page (i + 1))
          trace := s.trace ++ [(s.context, .asked (c.link i).identifier)] }
        hnext (c.link i).inert_before.1 (c.link i).inert_after.1 (c.room_context hnext)
      refine ⟨(s.context, .asked (c.link i).identifier) :: asked, ?_, ?_⟩
      · rw [Compiler.compileWithin, Compiler.expandAll_tagIn (c.link i).plain.1 hbefore hafter,
          ← bind_pure_comp, exec_bind, c.exec_expand s _ hne, exec_within, content_eq_render, hexec]
        simp only [exec_pure, nested, List.append_assoc, List.singleton_append]
      · rw [List.map_cons, hasked, List.range'_succ, List.map_cons]

end Cycle

/-- A page that refers to the first component of a cycle is compiled to the beginnings of as many
components as the depth allows, in the order of the cycle, a comment for the next one, and the ends
in the opposite order. The provider is asked for each of these components, step by step, and all
that is logged is that the next one was refused. -/
theorem Compiler.compile_cycle (c : Cycle) (maxDepth : Nat) (page : Option Text) (files : SiteTree)
    (s : Session) :
    ∃ asked, ((Compiler.mk c.provider maxDepth).compile (componentTag (c.link 0).identifier)
        page).exec files s =
      (.ok ((List.range maxDepth).flatMap (fun i => (c.link i).before) ++
          (depthMarker (c.link maxDepth).identifier maxDepth ++
            (List.range maxDepth).reverse.flatMap fun i => (c.link i).after)),
        { s with
          log := s.log ++ [c.refusal maxDepth]
          trace := s.trace ++ asked }) ∧
      asked.map Prod.snd = (List.range maxDepth).map fun i => .asked (c.link i).identifier := by
  have htop : Context.top maxDepth page = c.context maxDepth page 0 := rfl
  have hpage : componentTag (c.link 0).identifier = (tagIn [] (c.link 0).identifier []).render := by
    rw [componentTag_eq, render_tagIn, List.nil_append, List.append_nil]
  let compiler : Compiler := ⟨c.provider, maxDepth⟩
  obtain ⟨asked, hexec, hasked⟩ := c.exec_compileWithin (compiler.compileNested nestingLimit) page
    files { s with context := some (Context.top maxDepth page) } (Nat.zero_add maxDepth)
    isOrdinary_nil isOrdinary_nil
  refine ⟨asked, ?_, by rw [hasked, List.range_eq_range']⟩
  rw [compile, compileNested, exec_within, compileIn, htop, c.room_context (Nat.zero_add maxDepth),
    hpage, ← htop]
  rw [← htop] at hexec
  rw [hexec, Cycle.nested_eq, ← List.range_eq_range', Nat.zero_add, List.nil_append,
    List.append_nil]

/-- Two components that refer to each other. -/
def pingPong : Cycle where
  links := [⟨"Ping", "<p>", "</p>", by decide, by decide, by decide⟩,
    ⟨"Pong", "<q>", "</q>", by decide, by decide, by decide⟩]
  ne_nil := List.cons_ne_nil _ _
  distinct := by decide

def pingPongCompiler : Compiler := ⟨pingPong.provider, (3 : Nat)⟩

def pingPongPage : Text :=
  "<p><q><p><!-- Component \"Pong\" exceeded maximum nesting depth (3) --></p></q></p>"

theorem compile_cycle_pingPong :
    ((pingPongCompiler.compile (componentTag "Ping") none).exec ⟨.folder [], []⟩ .start).1 =
      .ok pingPongPage ∧
    ((pingPongCompiler.compile (componentTag "Ping") none).exec ⟨.folder [], []⟩
        .start).2.trace.map Prod.snd = [.asked "Ping", .asked "Pong", .asked "Ping"] := by
  have hout : (List.range 3).flatMap (fun i => (pingPong.link i).before) ++
      (depthMarker (pingPong.link 3).identifier (3 : Nat) ++
        (List.range 3).reverse.flatMap fun i => (pingPong.link i).after) = pingPongPage := by
    decide +kernel
  obtain ⟨asked, hexec, hasked⟩ :=
    Compiler.compile_cycle pingPong 3 none ⟨.folder [], []⟩ .start
  rw [hout] at hexec
  have hfirst : (pingPong.link 0).identifier = "Ping".toList := rfl
  have hcompiler : (⟨pingPong.provider, (3 : Nat)⟩ : Compiler) = pingPongCompiler := rfl
  rw [hfirst, hcompiler] at hexec
  rw [hexec]
  refine ⟨rfl, ?_⟩
  have hnames : (List.range 3).map (fun i => Event.asked (pingPong.link i).identifier) =
      [.asked "Ping", .asked "Pong", .asked "Ping"] := rfl
  rw [← hnames, ← hasked]
  rfl

end StaticSite
