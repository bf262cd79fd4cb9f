import StaticSite.Text.Basic

/-!
# Searching a text

A recogniser reads something at the front of a text and leaves the rest. `split` runs it over a
whole text from left to right, each search going on where the last match ended. Nothing is lost:
the sources of the pieces give the text back (`source_split`).
-/

namespace StaticSite.Text

/-- Reads an `α` at the front of a text and gives it with what follows. -/
abbrev Recogniser (α : Type) := Text → Option (α × Text)

/-- A recogniser that takes at least one character, all from the front of the text. -/
def Recogniser.Consumes {α : Type} (read : Recogniser α) : Prop :=
  ∀ s a rest, read s = some (a, rest) → ∃ source, source ≠ [] ∧ s = source ++ rest

/-- A part of a searched text: one character outside all matches, or a match. -/
inductive Piece (α : Type)
  | gap (c : Char)
  | hit (value : α) (source : Text)

namespace Piece

variable {α : Type}

def source : Piece α → Text
  | .gap c => [c]
  | .hit _ source => source

/-- The piece's text after `write` has replaced the matches. -/
def replaced (write : α → Text → Text) : Piece α → Text
  | .gap c => [c]
  | .hit a source => write a source

end Piece

variable {α : Type}

/-- The pieces of a text of which the first `skip` characters belong to a match already made. -/
def splitAfter (read : Recogniser α) : Nat → Text → List (Piece α)
  | _, [] => []
  | skip + 1, _ :: t => splitAfter read skip t
  | 0, c :: t =>
      match read (c :: t) with
      | none => .gap c :: splitAfter read 0 t
      | some (a, rest) =>
          .hit a ((c :: t).take (t.length + 1 - rest.length)) ::
            splitAfter read (t.length - rest.length) t

/-- The pieces of a text: the leftmost match first, the next one after its end, and so on. -/
def split (read : Recogniser α) (s : Text) : List (Piece α) := splitAfter read 0 s

def replaceAll (read : Recogniser α) (write : α → Text → Text) (s : Text) : Text :=
  (split read s).flatMap (Piece.replaced write)

def readAll (read : Recogniser α) (s : Text) : List α :=
  (split read s).filterMap fun
    | .gap _ => none
    | .hit a _ => some a

def readFirst? (read : Recogniser α) : Text → Option (α × Text)
  | [] => read []
  | c :: t => (read (c :: t)).or (readFirst? read t)

/-- A match with its place: the half-open range of character positions it takes. -/
structure Span (α : Type) where
  start : Nat
  stop : Nat
  source : Text
  value : α

/-- Gives each match its place, the first piece standing at `position`. -/
def place : Nat → List (Piece α) → List (Span α)
  | _, [] => []
  | position, .gap _ :: ps => place (position + 1) ps
  | position, .hit a source :: ps =>
      ⟨position, position + source.length, source, a⟩ :: place (position + source.length) ps

def spans (read : Recogniser α) (s : Text) : List (Span α) := place 0 (split read s)

theorem splitAfter_drop (read : Recogniser α) (skip : Nat) (s : Text) :
    splitAfter read skip s = split read (s.drop skip) := by
  induction s generalizing skip with
  | nil => cases skip <;> rfl
  | cons c t ih =>
      cases skip with
      | zero => rfl
      | succ skip => exact ih skip

theorem split_cons_of_none {read : Recogniser α} {c : Char} {t : Text}
    (h : read (c :: t) = none) : split read (c :: t) = .gap c :: split read t := by
  simp [split, splitAfter, h]

theorem split_of_some {read : Recogniser α} {source rest : Text} {a : α} (hs : source ≠ [])
    (h : read (source ++ rest) = some (a, rest)) :
    split read (source ++ rest) = .hit a source :: split read rest := by
  cases source with
  | nil => exact absurd rfl hs
  | cons c t =>
      simp only [List.cons_append] at h
      rw [List.cons_append, split, splitAfter, h]
      have hn : (t ++ rest).length + 1 - rest.length = t.length + 1 := by
        rw [List.length_append]; omega
      have hm : (t ++ rest).length - rest.length = t.length := by
        rw [List.length_append]; omega
      simp only [hn, hm, splitAfter_drop]
      simp

theorem split_induction {read : Recogniser α} (consumes : read.Consumes) {motive : Text → Prop}
    (nil : motive [])
    (gap : ∀ c t, read (c :: t) = none → motive t → motive (c :: t))
    (hit : ∀ a source rest, source ≠ [] → read (source ++ rest) = some (a, rest) →
      motive rest → motive (source ++ rest))
    (s : Text) : motive s := by
  match s with
  | [] => exact nil
  | c :: t =>
      match h : read (c :: t) with
      | none => exact gap c t h (split_induction consumes nil gap hit t)
      | some (a, rest) =>
          obtain ⟨source, hs, hst⟩ := consumes _ _ _ h
          rw [hst] at h ⊢
          exact hit a source rest hs h (split_induction consumes nil gap hit rest)
termination_by s.length
decreasing_by
  · simp
  · have := List.length_pos_iff.mpr hs
    rw [hst, List.length_append]
    omega

theorem source_split {read : Recogniser α} (consumes : read.Consumes) (s : Text) :
    (split read s).flatMap Piece.source = s := by
  induction s using split_induction consumes with
  | nil => rfl
  | gap c t h ih => simp [split_cons_of_none h, Piece.source, ih]
  | hit a source rest hs h ih => simp [split_of_some hs h, Piece.source, ih]

end StaticSite.Text
