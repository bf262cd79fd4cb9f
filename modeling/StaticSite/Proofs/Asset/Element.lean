import StaticSite.Proofs.Asset.Reading
import StaticSite.Proofs.Text.Moved

/-!
# Blocks

An asset is put in as a block: its text on lines of its own between two tags.
-/

namespace StaticSite.Asset

open Text

/-- A text on lines of its own between two tags. -/
def element (name a : Text) : Text :=
  '<' :: ((name ++ ['>', '\n']) ++ ((a ++ ['\n', '<']) ++ ('/' :: (name ++ ['>']))))

theorem styleElement_eq (a : Text) : styleElement a = element "style" a := by
  have hopen : "<style>\n".toList = '<' :: ("style".toList ++ ['>', '\n']) := rfl
  have hclose : "\n</style>".toList = ['\n', '<'] ++ '/' :: ("style".toList ++ ['>']) := rfl
  unfold styleElement element
  rw [hopen, hclose]
  generalize "style".toList = name
  simp only [List.cons_append, List.append_assoc]

theorem scriptElement_eq (a : Text) : scriptElement a = element "script" a := by
  have hopen : "<script>\n".toList = '<' :: ("script".toList ++ ['>', '\n']) := rfl
  have hclose : "\n</script>".toList = ['\n', '<'] ++ '/' :: ("script".toList ++ ['>']) := rfl
  unfold scriptElement element
  rw [hopen, hclose]
  generalize "script".toList = name
  simp only [List.cons_append, List.append_assoc]

theorem scriptElement_append (a s : Text) :
    scriptElement a ++ s = "<script>\n" ++ (a ++ ("\n</script>" ++ s)) := by
  unfold scriptElement
  generalize "<script>\n".toList = opening
  generalize "\n</script>".toList = closing
  rw [List.append_assoc, List.append_assoc]

section Spares

variable {α : Type} {read : Recogniser α} {name a : Text}

/-- No match begins in a block if none begins in its text. -/
theorem spares_element (opens : read.OpensWith '<') (slash : ∀ s, read ('<' :: '/' :: s) = none)
    (hopen : ∀ t, read ('<' :: (name ++ '>' :: t)) = none) (hname : '<' ∉ name)
    (ha : read.Spares (a ++ ['\n'])) : read.Spares (element name a) := by
  have hform : element name a =
      ('<' :: (name ++ ['>', '\n'])) ++ ((a ++ ['\n']) ++ ('<' :: '/' :: (name ++ ['>']))) := by
    simp [element]
  have hopening : read.Spares ('<' :: (name ++ ['>', '\n'])) := by
    refine Recogniser.Spares.cons (fun t => ?_) (opens.spares (by simp [hname]))
    rw [List.append_assoc]
    exact hopen _
  have hclosing : read.Spares ('<' :: '/' :: (name ++ ['>'])) :=
    Recogniser.Spares.cons (fun t => slash _) (opens.spares (by simp [hname]))
  rw [hform]
  exact hopening.append (ha.append hclosing)

end Spares

end StaticSite.Asset
