import StaticSite.Proofs.Compile.Library

/-!
# No component tag is left

A provider that has well-formed content or none for every reference leaves no component tag in a
compiled document, however deep its components nest and whatever state they keep.
-/

namespace StaticSite

open Markup

/-- The beginnings of opening and closing component tags. -/
def tagWords : List Text := ["<Component".toList, "</Component".toList]

theorem not_infix_of_isOrdinary {s word : Text} (h : isOrdinary s) (hword : word ∈ tagWords) :
    ¬word <:+: s := by
  rintro ⟨before, after, rfl⟩
  rw [List.append_assoc] at h
  have hrest := isOrdinary_of_append h
  rcases List.mem_cons.mp hword with rfl | hword
  · exact absurd hrest (by simp [isOrdinary, opensOther, isOtherLetter])
  · rw [List.mem_singleton.mp hword] at hrest
    exact absurd hrest (by simp [isOrdinary, opensOther, isOtherLetter])

/-- For every reference that can be written, and in every session, the provider has a well-formed
content, or it says that there is none. -/
def Provider.IsSound (p : Provider) (reenter : Engine.Reentry) (files : SiteTree) : Prop :=
  p.Serves reenter files fun _ _ answer => ∀ content ∈ answer, content.IsComponent

/-- What a site's function may give for its provider to be sound. -/
def IsSoundResult : Except Fault Value → Prop
  | .ok value => value = .none ∨ ∃ content : Document, content.IsComponent ∧
      value = .text content.render
  | .error fault => fault.stops = false ∧ fault.isWorded

theorem isSound_function {lookUp : Text → Script Value} {reenter : Engine.Reentry}
    {files : SiteTree}
    (h : ∀ identifier s, IsSoundResult ((Engine.run reenter (lookUp identifier)).exec files s).1) :
    (Provider.function lookUp).IsSound reenter files := by
  intro identifier props _ _ s
  let asked : Session := { s with trace := s.trace ++ [(s.context, .asked identifier)] ++
    [(s.context, .lookedUp (normalize identifier))] }
  have hresult := h (normalize identifier) asked
  rw [Engine.exec_bind, Provider.resolve, Provider.resolveFunction]
  simp only [Engine.exec_bind, Engine.exec_note, Engine.exec_attempt]
  cases hrun : (Engine.run reenter (lookUp (normalize identifier))).exec files asked with
  | mk result after =>
      rw [hrun] at hresult
      cases result with
      | ok value =>
          rcases hresult with rfl | ⟨content, hcontent, rfl⟩
          · exact ⟨none, by simp, _, rfl, rfl⟩
          · exact ⟨some content, by simpa using hcontent, rfl⟩
      | error fault =>
          obtain ⟨hstops, hworded⟩ := hresult
          refine ⟨none, by simp, .producerFailed identifier (some functionOrigin) fault, ?_, rfl⟩
          simp [hstops, Fault.inProducer_of_isWorded hworded]

theorem isSound_ofDocuments {documents : List (Text × Document)}
    (h : ∀ e ∈ documents, e.2.IsComponent) (reenter : Engine.Reentry) (files : SiteTree) :
    (Provider.ofDocuments documents).IsSound reenter files := by
  intro identifier props hidentifier hprops s
  obtain ⟨answer, rfl, hshows⟩ :=
    serves_ofDocuments documents reenter files identifier props hidentifier hprops s
  exact ⟨_, fun content hcontent => isComponent_of_contentOf h hcontent, hshows⟩

theorem Compiler.ensures_compile_isOrdinary {c : Compiler} {files : SiteTree}
    (hsound : c.provider.IsSound c.reenter files) (page : Option Text) {d : Document}
    (hd : d.WellFormed) : (c.compile d.render page).Ensures files fun out => isOrdinary out := by
  have hanswers : Answers.Sound fun _ _ answer => ∀ content ∈ answer, content.IsComponent :=
    fun _ _ content h => h content rfl
  exact (ensures_compile hsound hanswers page hd).mono fun out h => h.1

/-- A compiled document holds no component tag. -/
theorem Compiler.compile_leaves_no_tags (c : Compiler) (files : SiteTree)
    (hsound : c.provider.IsSound c.reenter files) {d : Document} (hd : d.WellFormed)
    (page : Option Text) (s : Session) :
    ∃ out, ((c.compile d.render page).exec files s).1 = .ok out ∧
      ¬"<Component".toList <:+: out ∧ ¬"</Component".toList <:+: out := by
  obtain ⟨out, hout, hordinary⟩ := ensures_compile_isOrdinary hsound page hd s
  exact ⟨out, hout, not_infix_of_isOrdinary hordinary (by simp [tagWords]),
    not_infix_of_isOrdinary hordinary (by simp [tagWords])⟩

/-- A component that refers to itself. -/
def lamp : Document :=
  .selfClosing [("src", "Lamp"), ("on", "{{ on }}")]
    (.around "Lamp" [] (.text "{{ children }}" .empty) .empty)

/-- The lamp is there at every second look only. -/
def flickering : Script Value :=
  .count 0 fun n => if n % 2 = 0 then .done .none else .done (.text lamp.render)

theorem compile_leaves_no_tags_flickering :
    ∃ out, (((⟨.function fun _ => flickering, 50⟩ : Compiler).compile lamp.render none).exec
        ⟨.folder [], []⟩ ⟨none, [], [], [0], []⟩).1 = .ok out ∧
      ¬"<Component".toList <:+: out ∧ ¬"</Component".toList <:+: out := by
  have hlamp : lamp.IsComponent := by decide
  refine Compiler.compile_leaves_no_tags _ _ (isSound_function fun _ s => ?_) hlamp.wellFormed
    none _
  rw [flickering, Engine.exec_run_count]
  split
  · exact .inl rfl
  · exact .inr ⟨lamp, hlamp, rfl⟩

end StaticSite
