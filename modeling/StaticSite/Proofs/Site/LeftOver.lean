import StaticSite.Proofs.Markup.Peel
import StaticSite.Proofs.Markup.Template
import StaticSite.Proofs.Site.Blocks

/-!
# Holes that are left over

A self-closing tag can fill every hole whose name is made of word characters and hyphens, as the
names of its attributes are. What is emptied in the end are the holes named by word characters
alone. So a hole with a hyphen in its name that no tag has filled stays in the finished page.
-/

namespace StaticSite

open Text

namespace Markup

/-! ## Names of attributes -/

/-- A name that some self-closing tag gives a value. -/
def IsAttributeName (name : Text) : Prop :=
  ∃ tag props, selfClosingAttributes? tag = some props ∧ name ∈ props.names

/-- The names of attributes are the texts of word characters and hyphens, the empty one aside. -/
theorem isAttributeName_iff {name : Text} : IsAttributeName name ↔ name ≠ [] ∧ IsHoleName name := by
  constructor
  · rintro ⟨tag, props, htag, hname⟩
    obtain ⟨⟨region, rest⟩, -, rfl⟩ := Option.map_eq_some_iff.mp htag
    obtain ⟨a, ha, rfl⟩ := List.mem_map.mp hname
    obtain ⟨s, more, -, hread⟩ := exists_of_mem_readAll (Table.mem_of_mem_ofList ha)
    obtain ⟨hne, hword, -, -⟩ := eq_of_readAttribute hread
    exact ⟨hne, hword⟩
  · rintro ⟨hne, hname⟩
    have hattribute : ∀ a ∈ [(name, ([] : Text))], IsAttribute .hyphenated a := by
      intro a ha
      cases List.mem_singleton.mp ha
      exact ⟨hne, hname, fun c hc => absurd hc List.not_mem_nil⟩
    refine ⟨renderSelfClosing [(name, [])], Table.ofList [(name, [])],
      selfClosingAttributes?_renderSelfClosing (List.cons_ne_nil _ _) hattribute, ?_⟩
    exact List.mem_singleton.mpr rfl

theorem isWord_iff_of_isHoleName {name : Text} (h : IsHoleName name) :
    (∀ c ∈ name, isWord c) ↔ '-' ∉ name := by
  constructor
  · intro hwords hmem
    have hhyphen : isWord '-' = false := by decide +kernel
    simpa [hhyphen] using hwords '-' hmem
  · intro hhyphen c hc
    have hword := h c hc
    rw [isHyphenWord, Bool.or_eq_true, beq_iff_eq] at hword
    refine hword.resolve_left ?_
    rintro rfl
    exact hhyphen hc

/-! ## One hole in a text -/

/-- A hole that is emptied, as one that can be filled. -/
def HoleText.toHole (hole : HoleText) : Hole :=
  { hole with isHoleName := fun c hc => isHyphenWord_of_isWord (hole.isWord_name c hc) }

namespace Hole

variable {before after : Text} (hole : Hole)

/-- In a hole with a hyphen in its name no hole begins that is emptied. -/
theorem readAnyHole_of_suffix (hhyphen : '-' ∈ hole.name) (rest u : Text) (hu : u ≠ [])
    (hsuffix : u <:+ hole.text) : readAnyHole (u ++ rest) = none := by
  cases h : readAnyHole (u ++ rest) with
  | none => rfl
  | some r =>
      obtain ⟨other, -, heq⟩ := exists_of_readAnyHole h
      have hother := other.toHole.isHoleName
      have hne : hole.name ≠ other.name := by
        intro hname
        rw [hname] at hhyphen
        exact (isWord_iff_of_isHoleName hother).mp other.isWord_name hhyphen
      have hnone := hole.readHole_of_suffix hother hne rest u hu hsuffix
      have hsome := other.toHole.readHole_append hother r.2
      rw [if_pos rfl] at hsome
      rw [heq] at hnone
      cases hnone.symm.trans hsome

theorem fill_around (hbefore : '{' ∉ before) (hafter : '{' ∉ after) (value : Text) :
    fill hole.name value (before ++ (hole.text ++ after)) = before ++ (value ++ after) := by
  have hlead : ∀ c ∈ before, c ≠ '{' := fun c hc hopen => hbefore (hopen ▸ hc)
  rw [fill_lead_append _ _ hlead, hole.fill_append hole.isHoleName, if_pos rfl,
    fill_eq_self_of_notMem _ _ hafter]

/-- What is left of a hole that no tag has filled. -/
def leftOver : Text := if '-' ∈ hole.name then hole.text else []

theorem clearHoles_around (hbefore : '{' ∉ before) (hafter : '{' ∉ after) :
    clearHoles (before ++ (hole.text ++ after)) = before ++ (hole.leftOver ++ after) := by
  rw [clearHoles, replaceAll_append_of_opensWith _ opensWith_readAnyHole hbefore,
    List.append_cancel_left_eq, leftOver]
  split
  · rename_i hhyphen
    rw [replaceAll_append_of_none _ (hole.readAnyHole_of_suffix hhyphen after),
      replaceAll_of_opensWith _ opensWith_readAnyHole hafter]
  · rename_i hhyphen
    have hwords := (isWord_iff_of_isHoleName hole.isHoleName).mpr hhyphen
    have hread : readAnyHole (hole.text ++ after) = some (hole.name, after) :=
      (hole.ofWord hwords).readAnyHole_append after
    rw [replaceAll_of_some _ hole.text_ne_nil hread,
      replaceAll_of_opensWith _ opensWith_readAnyHole hafter]

theorem leftOver_eq_nil_iff : hole.leftOver = [] ↔ '-' ∉ hole.name := by
  rw [leftOver]
  split
  · rename_i hhyphen
    exact iff_of_false hole.text_ne_nil (not_not_intro hhyphen)
  · rename_i hhyphen
    exact iff_of_true rfl hhyphen

end Hole

end Markup

open Markup

/-! ## Finished pages -/

namespace Environment

variable {e : Environment} {files : SiteTree} {page html : Text} {s : Session}

/-- A page with its components expanded and its assets inlined, as far as wanted. -/
def inlinedPage (e : Environment) (page : Text) : Engine Text := do
  let html ← e.compiledPage page
  let html ← if e.inlineCss then e.inlineStylesheets html else pure html
  if e.inlineJs then e.inlineScripts html else pure html

theorem exec_renderPage (h : ((e.compiledPage page).exec files s).1 = .ok html) :
    ((e.renderPage page).exec files s).1 = .ok (clearHoles html) := by
  have hform : e.renderPage page = do return clearHoles (← e.compiledPage page) := by
    rw [renderPage, compiledPage, bind_assoc]
  rw [hform, Engine.exec_bind_of_ok h]
  rfl

theorem exec_buildPage_of_inlined (h : ((e.inlinedPage page).exec files s).1 = .ok html) :
    ((e.buildPage page).exec files s).1 =
      .ok (Asset.stripDevScripts e.markers (clearHoles html)) := by
  have hform : e.buildPage page = do
      return Asset.stripDevScripts e.markers (clearHoles (← e.inlinedPage page)) := by
    cases hcss : e.inlineCss <;> cases hjs : e.inlineJs <;>
      simp [buildPage, inlinedPage, compiledPage, hcss, hjs]
  rw [hform, Engine.exec_bind_of_ok h]
  rfl

end Environment

/-- A hole that an attribute of a self-closing tag would fill is emptied if and only if there is no
hyphen in its name. Otherwise it comes through as it is, also into the pages for development and for
publication. -/
theorem hole_left_over (hole : Hole) {before after : Text} (hsteering : hole.name ∉ steeringNames)
    (hbefore : '{' ∉ before) (hafter : '{' ∉ after) :
    IsAttributeName hole.name ∧
    (∀ variants value, bindProp variants (before ++ (hole.text ++ after)) (hole.name, value) =
      before ++ (value ++ after)) ∧
    (clearHoles (before ++ (hole.text ++ after)) = before ++ after ↔ '-' ∉ hole.name) ∧
    clearHoles (before ++ (hole.text ++ after)) = before ++ (hole.leftOver ++ after) ∧
    ∀ (e : Environment) files page s,
      (((e.compiledPage page).exec files s).1 = .ok (before ++ (hole.text ++ after)) →
        ((e.renderPage page).exec files s).1 = .ok (before ++ (hole.leftOver ++ after))) ∧
      (((e.inlinedPage page).exec files s).1 = .ok (before ++ (hole.text ++ after)) →
        ((e.buildPage page).exec files s).1 =
          .ok (Asset.stripDevScripts e.markers (before ++ (hole.leftOver ++ after)))) := by
  have hcleared := hole.clearHoles_around hbefore hafter
  refine ⟨isAttributeName_iff.mpr ⟨hole.ne_nil, hole.isHoleName⟩, fun variants value => ?_, ?_,
    hcleared, fun e files page s => ⟨fun h => ?_, fun h => ?_⟩⟩
  · have hvariant : hole.name ≠ "variant".toList := by
      intro hname
      exact hsteering (hname ▸ by decide)
    simp only [bindProp, if_neg hvariant]
    rw [if_neg (by simpa using hsteering), hole.fill_around hbefore hafter]
  · rw [hcleared, List.append_cancel_left_eq, List.append_left_eq_self]
    exact hole.leftOver_eq_nil_iff
  · rw [Environment.exec_renderPage h, hcleared]
  · rw [Environment.exec_buildPage_of_inlined h, hcleared]

/-! ## A hole with a hyphen -/

section Hyphen

theorem isHoleName_hyphen : IsHoleName "data-x" := by decide

theorem isBlank_of_mem_space : ∀ c ∈ (" " : Text), isBlank c := by decide

def hyphenHole : Hole where
  before := " "
  name := "data-x"
  after := " "
  ne_nil := List.cons_ne_nil _ _
  isHoleName := isHoleName_hyphen
  isBlank_before := isBlank_of_mem_space
  isBlank_after := isBlank_of_mem_space

/-- A site of which the page leaves a hole of a component unfilled. -/
def hyphenFiles : SiteTree :=
  ⟨.folder [("src", .folder [
    ("components", .folder [("Card.html", textFile ("<p>" ++ hyphenHole.text ++ "</p>"))]),
    ("index.html", textFile "<Component src=\"Card\" />")])], []⟩

def hyphenSite : Environment := .ofRoot (Path.ofText "src") none

theorem exec_compiledPage_hyphen :
    ((hyphenSite.compiledPage "index.html").exec hyphenFiles .start).1 =
      .ok ("<p>" ++ (hyphenHole.text ++ "</p>")) :=
  eq_ok_of_toOption (by decide +kernel)

theorem hole_left_over_hyphen :
    hyphenHole.name ∉ steeringNames ∧ IsAttributeName "data-x" ∧
      ((hyphenSite.renderPage "index.html").exec hyphenFiles .start).1 =
        .ok ("<p>" ++ (hyphenHole.text ++ "</p>")) := by
  have hsteering : hyphenHole.name ∉ steeringNames := by decide
  obtain ⟨hname, -, -, -, hpages⟩ :=
    @hole_left_over hyphenHole "<p>" "</p>" hsteering (by decide) (by decide)
  exact ⟨hsteering, hname, (hpages hyphenSite hyphenFiles "index.html" .start).1
    exec_compiledPage_hyphen⟩

/-- The hole that the page leaves unfilled stands in the page for development and in the page for
publication. -/
theorem hyphen_hole_stays :
    IsAttributeName "data-x" ∧ ("data-x" : Text) ∉ steeringNames ∧
      clearHoles ("<p>" ++ (hyphenHole.text ++ "</p>")) ≠ "<p>" ++ "</p>" ∧
      ((hyphenSite.renderPage "index.html").exec hyphenFiles .start).1.toOption =
        some ("<p>" ++ (hyphenHole.text ++ "</p>")) ∧
      ((hyphenSite.buildPage "index.html").exec hyphenFiles .start).1.toOption =
        some ("<p>" ++ (hyphenHole.text ++ "</p>")) :=
  ⟨isAttributeName_iff.mpr ⟨List.cons_ne_nil _ _, isHoleName_hyphen⟩, by decide, by decide,
    by decide +kernel, by decide +kernel⟩

end Hyphen

end StaticSite
