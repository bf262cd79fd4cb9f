import StaticSite.Proofs.Component.Abreast
import StaticSite.Proofs.Component.SearchOrder

/-!
# Spelling of separators

Every provider normalises the identifier that it looks up, each in a place of its own, and the name
under which a module runs is the same with either separator. So two spellings of an identifier find
the same component, or fail in the same way, after the same work.
-/

namespace StaticSite

open Markup Engine

/-- Two spellings of an identifier stand for each other, and nothing else differs. -/
def respelling (i j : Text) : Likeness := ⟨i, j, Eq, Eq⟩

theorem Folders.moduleName_normalize (identifier : Text) :
    moduleName (normalize identifier) = moduleName identifier := by
  have hletter : ∀ c : Char,
      (if Text.isAlphanumeric (if c = '\\' then '/' else c) then if c = '\\' then '/' else c
        else '_') = if Text.isAlphanumeric c then c else '_' := by
    intro c
    by_cases hc : c = '\\'
    · subst hc
      decide
    · rw [if_neg hc]
  unfold moduleName normalize Text.replaceChar
  rw [List.map_map]
  exact congrArg _ (List.map_congr_left fun c _ => hletter c)

/-- Where a producer has failed, and why. -/
def Fault.failure? : Fault → Option (Option Text × Fault)
  | .producerFailed _ location cause => some (location, cause)
  | _ => none

theorem Source.Like.eq_of_respelling {i j : Text} {source other : Source}
    (h : source.Like (respelling i j) other) :
    other = { source with identifier := other.identifier } ∧
      (source.identifier = i ∧ other.identifier = j ∨ source = other) := by
  cases h with
  | same => exact ⟨rfl, .inr rfl⟩
  | named markup producer h =>
      obtain rfl := h
      exact ⟨rfl, .inl ⟨rfl, rfl⟩⟩

theorem Fault.Like.failure?_of_respelling {i j : Text} {fault other : Fault}
    (h : fault.Like (respelling i j) other) : fault.failure? = other.failure? := by
  cases h with
  | failed h cause => exact congrArg (fun place => some (place, cause)) h
  | _ => rfl

section Respelled

variable {files : SiteTree} {reenter : Reentry}
  (hreenter : ∀ html page, Blind files (reenter html page)) {i j : Text}
  (hij : normalize i = normalize j)

/-- Runs of one action from sessions in which the same was done. -/
theorem Engine.Blind.abreast {α : Type} {act : Engine α} (h : Blind files act) :
    Abreast files files Eq (Fault.Like (respelling i j)) Eq act act :=
  (Abreast.of_blind h).mono (fun fault _ heq => heq ▸ .same fault) fun _ _ => id

/-- The values that a site's code has given become sources that are alike. -/
theorem Source.like_ofValue (origin : Text) (value : Value) :
    (ofValue i origin value).Like (respelling i j) (ofValue j origin value) := by
  cases value with
  | text markup => exact .named (k := respelling i j) _ _ rfl
  | source => exact .same _
  | _ => exact .named (k := respelling i j) _ _ rfl

include hij

theorem Provider.abreast_resolveTable (entries : Table Value) :
    Abreast files files Eq (Fault.Like (respelling i j)) (Source.Like (respelling i j))
      (resolveTable entries i) (resolveTable entries j) := by
  unfold resolveTable
  rw [hij]
  cases entries.get? (normalize j) with
  | none => exact .throw (.missing (k := respelling i j) _ rfl)
  | some value =>
      cases value with
      | text markup => exact .pure (.named (k := respelling i j) _ _ rfl)
      | _ => exact .pure (.named (k := respelling i j) _ _ rfl)

include hreenter

theorem Provider.abreast_resolveFunction (lookUp : Text → Script Value) :
    Abreast files files Eq (Fault.Like (respelling i j)) (Source.Like (respelling i j))
      (resolveFunction reenter lookUp i) (resolveFunction reenter lookUp j) := by
  unfold resolveFunction
  rw [hij]
  have hrun := fun html page => Abreast.of_blind (hreenter html page)
  refine (Abreast.note _).bind fun _ _ _ => (abreast_attempt_run hrun _).bind ?_
  intro outcome _ houtcomes
  cases houtcomes with
  | error h =>
      cases h
      exact .throw (.inProducer (k := respelling i j) rfl _)
  | ok h =>
      cases h
      simp only
      split
      · exact .throw (.missing (k := respelling i j) _ rfl)
      · exact .pure (Source.like_ofValue _ _)

namespace Folders

theorem abreast_resolveAt (f : Folders) (base : Path) :
    Abreast files files Eq (Fault.Like (respelling i j))
      (Option.Rel (Source.Like (respelling i j)))
      (f.resolveAt reenter i base) (f.resolveAt reenter j base) := by
  have hmarkup : f.markupPath base i = f.markupPath base j := by rw [markupPath, hij, markupPath]
  have hproducer : f.producerPath base i = f.producerPath base j := by
    rw [producerPath, hij, producerPath]
  unfold resolveAt resolveAtVia
  rw [hmarkup, hproducer]
  have hread : Blind files (f.readMarkup (f.markupPath base j)) :=
    (closed_blind files).readMarkup f _
  refine hread.abreast.bind ?_
  rintro markup _ rfl
  cases markup with
  | some markup => exact .pure (.some (.named (k := respelling i j) _ _ rfl))
  | none =>
      have hthere : Blind files (Access.direct.isFile (f.producerPath base j)) :=
        (closed_blind files).peeks (peeks_isFile _)
      refine hthere.abreast.bind ?_
      rintro there _ rfl
      cases there with
      | false => exact .pure .none
      | true =>
          have hname : moduleName i = moduleName j := by
            rw [← moduleName_normalize i, hij, moduleName_normalize]
          have hload := abreast_loadProducer (k := respelling i j) (f := f) (g := f)
            (p := f.producerPath base j) (fun html page => .of_blind (hreenter html page)) hname
            (Loading.like_self _) rfl
          refine hload.bind ?_
          rintro value _ rfl
          refine .pure ?_
          split
          · exact .none
          · exact .some (.named (k := respelling i j) _ _ rfl)

theorem abreast_resolve (f : Folders) :
    Abreast files files Eq (Fault.Like (respelling i j)) (Source.Like (respelling i j))
      (f.resolve reenter i) (f.resolve reenter j) := by
  have hlist := (closed_blind files).peeks f.peeks_list
  exact abreast_resolveFrom (k := respelling i j) rfl hlist.abreast
    (fun base _ => abreast_resolveAt hreenter hij f base) .none

end Folders

end Respelled

namespace Provider

mutual

/-- Two spellings of an identifier, looked up with one provider. The induction is on the nesting
of the provider. -/
theorem abreast_resolve {files : SiteTree} {reenter : Reentry}
    (hreenter : ∀ html page, Blind files (reenter html page)) {i j : Text}
    (hij : normalize i = normalize j) : (p : Provider) →
    Abreast files files Eq (Fault.Like (respelling i j)) (Source.Like (respelling i j))
      (p.resolve reenter i) (p.resolve reenter j)
  | .table entries => by
      rw [resolve, resolve]
      exact (Abreast.note_asked i j).bind fun _ _ _ => abreast_resolveTable hij entries
  | .function lookUp => by
      rw [resolve, resolve]
      exact (Abreast.note_asked i j).bind fun _ _ _ =>
        abreast_resolveFunction hreenter hij lookUp
  | .folders f => by
      rw [resolve, resolve]
      exact (Abreast.note_asked i j).bind fun _ _ _ => f.abreast_resolve hreenter hij
  | .choice ps => by
      rw [resolve, resolve]
      refine (abreast_resolveFirst hreenter hij ps .none).bind ?_
      intro found found' h
      cases h with
      | some h => exact .pure h
      | none =>
          refine ((closed_blind files).peeks (peeks_listAll ps)).abreast.bind ?_
          rintro ids _ rfl
          exact .throw (.missing (k := respelling i j) _ rfl)

theorem abreast_resolveFirst {files : SiteTree} {reenter : Reentry}
    (hreenter : ∀ html page, Blind files (reenter html page)) {i j : Text}
    (hij : normalize i = normalize j) : (ps : List Provider) → {held held' : Option Fault} →
    Option.Rel (Fault.Like (respelling i j)) held held' →
    Abreast files files Eq (Fault.Like (respelling i j)) (Option.Rel (Source.Like (respelling i j)))
      (resolveFirst reenter i held ps) (resolveFirst reenter j held' ps)
  | [], _, _, .some h => by
      rw [resolveFirst, resolveFirst]
      exact .throw h
  | [], _, _, .none => by
      rw [resolveFirst, resolveFirst]
      exact .pure .none
  | p :: ps, held, held', hheld => by
      rw [resolveFirst, resolveFirst]
      refine ((abreast_resolve hreenter hij p).attempt fun _ _ h => h.kind.2).bind ?_
      intro outcome outcome' houtcomes
      cases houtcomes with
      | ok h => exact .pure (.some h)
      | error h =>
          cases h with
          | same =>
              rename_i fault
              cases fault with
              | producerFailed =>
                  exact abreast_resolveFirst hreenter hij ps (Fault.Like.held_or hheld (.same _))
              | componentNotFound => exact abreast_resolveFirst hreenter hij ps hheld
              | _ => exact .throw (.same _)
          | missing => exact abreast_resolveFirst hreenter hij ps hheld
          | failed h cause =>
              exact abreast_resolveFirst hreenter hij ps
                (Fault.Like.held_or hheld (.failed h cause))

end

/-- Two identifiers that are normalised to the same text are looked up alike, in any provider and
over any files: both find sources that are equal up to the identifier, or both fail with faults of
one kind, and where a producer has failed, in one place for one cause. On the way the same code ran,
each module under one name, and the same was logged. -/
theorem resolve_respelled (p : Provider) (c : Compiler) (nesting : Nat) {i j : Text}
    (hij : normalize i = normalize j) (files : SiteTree) (s : Session) :
    let first := (p.resolve (c.compileNested nesting) i).exec files s
    let second := (p.resolve (c.compileNested nesting) j).exec files s
    ((∃ source other, first.1 = .ok source ∧ second.1 = .ok other ∧
        other = { source with identifier := other.identifier } ∧
        (source.identifier = i ∧ other.identifier = j ∨ source = other)) ∨
      ∃ fault other, first.1 = .error fault ∧ second.1 = .error other ∧
        fault.Like (respelling i j) other ∧ fault.kind = other.kind ∧
        fault.failure? = other.failure?) ∧
      first.2.SameWork second.2 Eq := by
  intro first second
  have hblind := c.blind_compileNested files nesting
  obtain ⟨houtcomes, hsession⟩ := abreast_resolve hblind hij p s s (.refl s)
  refine ⟨?_, hsession⟩
  rcases houtcomes.ok_or_error with ⟨source, other, hfirst, hsecond, h⟩ |
    ⟨fault, other, hfirst, hsecond, h⟩
  · exact .inl ⟨source, other, hfirst, hsecond, h.eq_of_respelling⟩
  · exact .inr ⟨fault, other, hfirst, hsecond, h, h.kind.1, h.failure?_of_respelling⟩

end Provider

/-- A table without the component, and the folder that holds those of `cardFiles`. -/
def cardChoice : Provider :=
  .choice [.ofEntries [("Logo", .text "L")], .folders (Folders.ofPaths [Path.ofText "."])]

/-- A module that fails does so under both spellings. -/
theorem resolve_respelled_card :
    normalize "a\\Card" = normalize "a/Card" ∧
      ∃ first second, first.SameWork second Eq ∧
        (cardChoice.resolve (citingCompiler.compileNested 1) "a\\Card").exec
          (cardFiles (.fail (.raised "ValueError" "bad")) []) .start =
            (.error (.producerFailed "a\\Card" (some "a/Card.py") (.raised "ValueError" "bad")),
              first) ∧
        (cardChoice.resolve (citingCompiler.compileNested 1) "a/Card").exec
          (cardFiles (.fail (.raised "ValueError" "bad")) []) .start =
            (.error (.producerFailed "a/Card" (some "a/Card.py") (.raised "ValueError" "bad")),
              second) := by
  have hij : normalize "a\\Card" = normalize "a/Card" := by decide
  obtain ⟨-, hwork⟩ := cardChoice.resolve_respelled citingCompiler 1 hij
    (cardFiles (.fail (.raised "ValueError" "bad")) []) .start
  exact ⟨hij, _, _, hwork, rfl, rfl⟩

end StaticSite
