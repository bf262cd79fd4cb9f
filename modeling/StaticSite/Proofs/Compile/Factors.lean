import StaticSite.Proofs.Markup.Pairs
import StaticSite.Proofs.Compile.Splice

/-!
# What splicing keeps

Both passes cut a text at the places of its references. The text is woven of the stretches between
these and of their sources, and the outcome of a pass of the same stretches and of the expansions,
so nothing else of the text is lost or written twice. A text without an opening mark of a
component has no places to cut at, and compiling leaves it as it is.
-/

namespace StaticSite

open Markup Text

/-- Stretches of text with parts between them. -/
def weave : List Text → List Text → Text
  | gap :: gaps, part :: parts => gap ++ (part ++ weave gaps parts)
  | gaps, _ => gaps.flatten

section Parts

variable {α : Type} (start stop : α → Nat)

/-- The stretches of a text before, between and behind parts, from `position` on. -/
def gapsFrom (html : Text) : Nat → List α → List Text
  | position, [] => [html.drop position]
  | position, a :: as => slice html position (start a) :: gapsFrom html (stop a) as

theorem length_gapsFrom (html : Text) (position : Nat) (as : List α) :
    (gapsFrom start stop html position as).length = as.length + 1 := by
  induction as generalizing position with
  | nil => rfl
  | cons a as ih => rw [gapsFrom, List.length_cons, List.length_cons, ih]

variable {start stop}

/-- Whether parts begin no earlier than at `position` and stand one behind the other. -/
def FollowFrom (start stop : α → Nat) : Nat → List α → Prop
  | _, [] => True
  | position, a :: as => position ≤ start a ∧ start a ≤ stop a ∧ FollowFrom start stop (stop a) as

theorem followFrom_of_pairwise {position : Nat} {as : List α}
    (hpairwise : as.Pairwise fun a b => stop a ≤ start b) (hle : ∀ a ∈ as, start a ≤ stop a)
    (hposition : ∀ a ∈ as, position ≤ start a) : FollowFrom start stop position as := by
  induction as generalizing position with
  | nil => trivial
  | cons a as ih =>
      obtain ⟨hfirst, hpairwise⟩ := List.pairwise_cons.mp hpairwise
      exact ⟨hposition a List.mem_cons_self, hle a List.mem_cons_self,
        ih hpairwise (fun b hb => hle b (List.mem_cons_of_mem a hb)) hfirst⟩

variable {html : Text} {position : Nat} {as : List α}

/-- The text is woven of the gaps and of what stands at the places of the parts. -/
theorem weave_slices (h : FollowFrom start stop position as) :
    weave (gapsFrom start stop html position as) (as.map fun a => slice html (start a) (stop a)) =
      html.drop position := by
  induction as generalizing position with
  | nil => exact List.append_nil _
  | cons a as ih =>
      obtain ⟨hstart, hstop, hrest⟩ := h
      rw [gapsFrom, List.map_cons, weave, ih hrest, slice_append_drop html hstop,
        slice_append_drop html hstart]

/-- Splicing weaves the expansions between the same gaps. -/
theorem splice_eq_weave (h : FollowFrom start stop position as) (expand : α → Engine Text) :
    splice start stop expand position (html.drop position) as =
      weave (gapsFrom start stop html position as) <$> as.mapM expand := by
  induction as generalizing position with
  | nil => simp [splice, gapsFrom, weave]
  | cons a as ih =>
      obtain ⟨hstart, hstop, hrest⟩ := h
      have hdrop : (html.drop position).drop (stop a - position) = html.drop (stop a) := by
        rw [List.drop_drop]
        congr 1
        omega
      rw [splice, hdrop, ih hrest]
      simp [gapsFrom, weave, slice]

end Parts

/-! ## Both passes -/

/-- The gaps between the references with children. -/
def childGaps (html : Text) : List Text :=
  gapsFrom Reference.start Reference.stop html 0 (childReferences html)

/-- The gaps between the tags of self-closing form. -/
def selfClosingGaps (html : Text) : List Text :=
  gapsFrom Span.start Span.stop html 0 (selfClosingTags html)

theorem followFrom_childReferences (html : Text) :
    FollowFrom Reference.start Reference.stop 0 (childReferences html) :=
  followFrom_of_pairwise ((pairwise_childReferences html).imp And.right)
    (fun _ hr => (slice_of_mem_childReferences hr).2) fun _ _ => Nat.zero_le _

theorem followFrom_selfClosingTags (html : Text) :
    FollowFrom Span.start Span.stop 0 (selfClosingTags html) :=
  followFrom_of_pairwise (pairwise_place _ _) (fun _ htag => (le_start_of_mem_place htag).2)
    fun _ _ => Nat.zero_le _

theorem slice_of_mem_selfClosingTags {html : Text} {tag : Span Unit}
    (h : tag ∈ selfClosingTags html) : slice html tag.start tag.stop = tag.source := by
  obtain ⟨left, right, hhtml, hstart, hstop, -⟩ :=
    exists_of_mem_place consumes_readSelfClosing [] h
  rw [List.nil_append] at hhtml
  rw [hhtml, hstart, hstop, slice_append]

/-! ## Texts without components -/

theorem exists_of_readTag_opening {s rest body : Text}
    (h : readTag s = some (.opening body, rest)) : ∃ opened, s = "<Component".toList ++ opened := by
  unfold readTag at h
  split at h
  · split at h
    · cases h
    · cases h
  · simp only [Option.bind_eq_bind, Option.bind_eq_some_iff] at h
    obtain ⟨opened, hopen, -⟩ := h
    exact ⟨opened, after?_eq_some_iff.mp hopen⟩

theorem infix_of_mem_childReferences {html : Text} {r : Reference}
    (h : r ∈ childReferences html) : "<Component".toList <:+: html := by
  obtain ⟨p, -, -⟩ := mem_childReferences_iff.mp h
  obtain ⟨left, right, hhtml, -, -, hread⟩ :=
    exists_of_mem_place consumes_readTag [] (List.mem_of_getElem? p.opens)
  rw [List.nil_append] at hhtml
  rw [p.isOpening] at hread
  obtain ⟨opened, hopen⟩ := exists_of_readTag_opening hread
  exact ⟨left, opened, by rw [hhtml, hopen, List.append_assoc]⟩

theorem infix_of_mem_selfClosingTags {html : Text} {tag : Span Unit}
    (h : tag ∈ selfClosingTags html) : "<Component".toList <:+: html := by
  obtain ⟨left, right, hhtml, -, -, hread⟩ :=
    exists_of_mem_place consumes_readSelfClosing [] h
  rw [List.nil_append] at hhtml
  unfold readSelfClosing at hread
  simp only [Option.bind_eq_bind, Option.bind_eq_some_iff] at hread
  obtain ⟨opened, hopen, -⟩ := hread
  rw [after?_eq_some_iff] at hopen
  exact ⟨left, opened, by rw [hhtml, hopen, List.append_assoc]⟩

namespace Compiler

variable (c : Compiler) (reenter : Engine.Reentry) (inner : Inner) (ctx : Context)

theorem exec_expandTag_of_malformed {tag : Span Unit}
    (h : ∀ props, selfClosingAttributes? tag.source = some props → props.get? sourceName = none)
    (files : SiteTree) (s : Session) :
    (c.expandTag reenter inner ctx tag).exec files s =
      (.ok tag.source, { s with log := s.log ++ [⟨.debug, .compiler,
        "Skipping malformed component tag: " ++ quoted tag.source⟩] }) := by
  have hnone : selfClosingReference? tag = none := by
    unfold selfClosingReference? Reference.ofSelfClosing?
    cases hprops : selfClosingAttributes? tag.source with
    | none => rfl
    | some props =>
        rw [Option.bind_eq_bind, Option.bind_some, h props hprops]
        rfl
  rw [expandTag, hnone]
  rfl

theorem exec_compile_of_no_component {html : Text} (h : ¬"<Component".toList <:+: html)
    (page : Option Text) (files : SiteTree) (s : Session) :
    (c.compile html page).exec files s = (.ok html, s) := by
  have hchildren : childReferences html = [] :=
    List.eq_nil_iff_forall_not_mem.mpr fun _ hr => h (infix_of_mem_childReferences hr)
  have htags : selfClosingTags html = [] :=
    List.eq_nil_iff_forall_not_mem.mpr fun _ htag => h (infix_of_mem_selfClosingTags htag)
  let ctx := Context.top c.maxDepth page
  have hcompile : c.compileIn c.reenter ctx html = pure html := by
    obtain ⟨inner, hinner⟩ := c.exists_compileWithin_eq c.reenter ctx.room
    rw [compileIn, hinner, expandAll, expandChildren, hchildren]
    show c.expandSelfClosing c.reenter inner ctx html = pure html
    rw [expandSelfClosing, htags]
    rfl
  show (Engine.within ctx (c.compileIn c.reenter ctx html)).exec files s = (.ok html, s)
  rw [hcompile]
  rfl

/-- A text is woven of the sources of its references and of the gaps between them, and each pass
weaves the expansions into the same gaps: the pass over the references with children, and then that
over the tags of self-closing form, of which a malformed one stays. So compiling leaves a text
without components alone, and asks for nothing and records nothing. -/
theorem expand_factors (html : Text) :
    ((childGaps html).length = (childReferences html).length + 1 ∧
      html = weave (childGaps html) ((childReferences html).map (·.source)) ∧
      c.expandChildren reenter inner ctx html =
        weave (childGaps html) <$> (childReferences html).mapM (c.expand reenter inner ctx)) ∧
      ((selfClosingGaps html).length = (selfClosingTags html).length + 1 ∧
        html = weave (selfClosingGaps html) ((selfClosingTags html).map (·.source)) ∧
        c.expandSelfClosing reenter inner ctx html =
          weave (selfClosingGaps html) <$>
            (selfClosingTags html).mapM (c.expandTag reenter inner ctx)) ∧
      (∀ tag : Span Unit,
        (∀ r, selfClosingReference? tag = some r →
          c.expandTag reenter inner ctx tag = c.expand reenter inner ctx r) ∧
        ((∀ props, selfClosingAttributes? tag.source = some props →
            props.get? sourceName = none) →
          ∀ files s, (c.expandTag reenter inner ctx tag).exec files s =
            (.ok tag.source, { s with log := s.log ++ [⟨.debug, .compiler,
              "Skipping malformed component tag: " ++ quoted tag.source⟩] }))) ∧
      (¬"<Component".toList <:+: html → ∀ page files s,
        (c.compile html page).exec files s = (.ok html, s)) := by
  have hchildren := followFrom_childReferences html
  have htags := followFrom_selfClosingTags html
  refine ⟨⟨length_gapsFrom _ _ _ _ _, ?_, splice_eq_weave hchildren _⟩,
    ⟨length_gapsFrom _ _ _ _ _, ?_, splice_eq_weave htags _⟩, fun tag => ⟨?_, ?_⟩,
    c.exec_compile_of_no_component⟩
  · rw [← List.map_congr_left fun r hr => (slice_of_mem_childReferences hr).1]
    exact (weave_slices hchildren).symm
  · rw [← List.map_congr_left fun tag htag => slice_of_mem_selfClosingTags htag]
    exact (weave_slices htags).symm
  · intro r hr
    rw [expandTag, hr]
  · exact fun h files s => c.exec_expandTag_of_malformed reenter inner ctx h files s

def emptyLibrary : Compiler := ⟨.ofEntries [], 1⟩

theorem expand_factors_hole :
    ¬"<Component".toList <:+: "a > \x7b\x7b b \x7d\x7d".toList ∧
      (emptyLibrary.compile "a > \x7b\x7b b \x7d\x7d" none).exec ⟨.folder [], []⟩ .start =
        (.ok "a > \x7b\x7b b \x7d\x7d".toList, .start) := by
  have hnone : ¬"<Component".toList <:+: "a > \x7b\x7b b \x7d\x7d".toList := fun h =>
    absurd (h.subset (show '<' ∈ "<Component".toList by decide)) (by decide)
  obtain ⟨-, -, -, hcompile⟩ :=
    emptyLibrary.expand_factors emptyLibrary.reenter (fun _ html => pure html) (.top 1 none) _
  exact ⟨hnone, hcompile hnone none _ _⟩

end Compiler

end StaticSite
