/-!
# Text

A text is a list of characters, so "what is left of the text" is a tail of a list.
This module holds the cuts and comparisons that need no table of characters.
-/

namespace StaticSite

abbrev Text := List Char

/-- Writes a literal where a text is expected. -/
instance : Coe String Text := ⟨String.toList⟩

/-- What holds of all characters of a text is decided along the text. -/
instance (p : Char → Prop) [DecidablePred p] (s : Text) : Decidable (∀ c ∈ s, p c) :=
  List.decidableBAll p s

namespace Text

/-- What follows `mark` at the start of a text, when the text starts with it. -/
def after? : Text → Text → Option Text
  | [], s => some s
  | _ :: _, [] => none
  | a :: mark, c :: s => if a = c then after? mark s else none

theorem after?_eq_some_iff {mark s rest : Text} :
    after? mark s = some rest ↔ s = mark ++ rest := by
  induction mark generalizing s with
  | nil => simp [after?]
  | cons a mark ih =>
      cases s with
      | nil => simp [after?]
      | cons c s =>
          by_cases h : a = c
          · simp [after?, h, ih]
          · simp [after?, h, Ne.symm h]

@[simp] theorem after?_append (mark rest : Text) : after? mark (mark ++ rest) = some rest :=
  after?_eq_some_iff.mpr rfl

def startsWith (mark s : Text) : Bool := (after? mark s).isSome

def endsWith (mark s : Text) : Bool := startsWith mark.reverse s.reverse

def hasPart (part : Text) : Text → Bool
  | [] => part.isEmpty
  | c :: s => startsWith part (c :: s) || hasPart part s

/-- The text before the first `c`, and the text after it (empty when there is no `c`). -/
def cut (c : Char) (s : Text) : Text × Text :=
  (s.takeWhile (· != c), (s.dropWhile (· != c)).drop 1)

/-- The text before the first `c` and the text after it, when there is a `c`. -/
def cut? (c : Char) (s : Text) : Option (Text × Text) :=
  match s.dropWhile (· != c) with
  | [] => none
  | _ :: rest => some (s.takeWhile (· != c), rest)

theorem cut?_eq_some_iff {c : Char} {s left rest : Text} :
    cut? c s = some (left, rest) ↔ s = left ++ c :: rest ∧ c ∉ left := by
  induction s generalizing left with
  | nil => simp [cut?]
  | cons a s ih =>
      by_cases h : a = c
      · subst h
        cases left with
        | nil => simp [cut?]
        | cons b left =>
            simp only [cut?, List.dropWhile_cons, List.takeWhile_cons, bne_self_eq_false,
              Bool.false_eq_true, if_false, Option.some.injEq, Prod.mk.injEq, List.cons_append,
              List.cons.injEq, List.mem_cons, not_or]
            constructor
            · rintro ⟨hn, -⟩
              exact absurd hn (by simp)
            · rintro ⟨⟨hb, -⟩, hc, -⟩
              exact absurd hb hc
      · have step : cut? c (a :: s) = (cut? c s).map fun p => (a :: p.1, p.2) := by
          simp only [cut?, List.dropWhile_cons, List.takeWhile_cons, bne_iff_ne.mpr h, if_true]
          cases s.dropWhile (· != c) <;> rfl
        rw [step]
        cases left with
        | nil => simp [h]
        | cons b left =>
            simp only [Option.map_eq_some_iff, Prod.mk.injEq, List.cons.injEq, Prod.exists,
              List.cons_append, List.mem_cons, not_or]
            constructor
            · rintro ⟨l, r, hcut, ⟨rfl, rfl⟩, rfl⟩
              obtain ⟨hs, hl⟩ := ih.mp hcut
              exact ⟨⟨rfl, hs⟩, Ne.symm h, hl⟩
            · rintro ⟨⟨rfl, hs⟩, -, hl⟩
              exact ⟨left, rest, ih.mpr ⟨hs, hl⟩, ⟨rfl, rfl⟩, rfl⟩

/-- A text falls into its longest beginning of characters in `p` and a rest as soon as the rest
does not start with another one. -/
theorem takeWhile_append_of_head {p : Char → Bool} {run rest : Text} (hrun : ∀ c ∈ run, p c)
    (hrest : ∀ c ∈ rest.head?, p c = false) :
    (run ++ rest).takeWhile p = run ∧ (run ++ rest).dropWhile p = rest := by
  induction run with
  | nil =>
      cases rest with
      | nil => simp
      | cons c rest =>
          have := hrest c (by simp)
          simp [this]
  | cons a run ih =>
      have ha := hrun a (by simp)
      obtain ⟨ht, hd⟩ := ih fun c hc => hrun c (by simp [hc])
      simp [ha, ht, hd]

/-- The parts of a text between the `c`s: one more than there are `c`s. -/
def fields (c : Char) : Text → List Text
  | [] => [[]]
  | a :: s =>
      if a = c then [] :: fields c s
      else match fields c s with
        | [] => [[a]]
        | f :: fs => (a :: f) :: fs

def join (mark : Text) : List Text → Text
  | [] => []
  | [s] => s
  | s :: t :: ts => s ++ mark ++ join mark (t :: ts)

/-- Code point order, a text after each of its beginnings. -/
def le : Text → Text → Bool
  | [], _ => true
  | _ :: _, [] => false
  | a :: s, c :: t => a < c || (a == c && le s t)

/-- Puts a text at its place in an increasing list, once. -/
def insertOnce (s : Text) : List Text → List Text
  | [] => [s]
  | t :: ts => if s = t then t :: ts else if le s t then s :: t :: ts else t :: insertOnce s ts

def sortedSet (ts : List Text) : List Text := ts.foldr insertOnce []

def replaceChar (old new : Char) (s : Text) : Text := s.map fun c => if c = old then new else c

/-- Whether a character lies in one of the code point ranges, ends included. -/
def inRanges (ranges : List (Nat × Nat)) (c : Char) : Bool :=
  ranges.any fun r => r.1 ≤ c.toNat && c.toNat ≤ r.2

end Text

end StaticSite
