import StaticSite.Proofs.Text.Locality
import StaticSite.Terminal.Diagnostic

/-!
# Stripping styles

No escape sequence goes on across an escape character or a line feed. So stripping a styled text
gives what stripping the text gives, whatever half of a sequence the text begins or ends with, and
a diagnostic says the same with styling and without.
-/

namespace StaticSite.Terminal

open Text

/-! ## Reading sequences -/

/-- Whether a character can stand in an escape sequence behind its first character. -/
def continues (c : Char) : Bool := isParameter c || isIntermediate c || isFinal c

/-- Reads what stands behind the opening bracket of a sequence. -/
def readBody : Recogniser Unit := fun s =>
  match (s.dropWhile isParameter).dropWhile isIntermediate with
  | c :: rest => if isFinal c then some ((), rest) else none
  | [] => none

section Sequences

variable {c : Char}

theorem continues_eq_false_iff :
    continues c = false ↔ isParameter c = false ∧ isIntermediate c = false ∧ isFinal c = false := by
  simp [continues, and_assoc]

theorem isEscapeLetter_eq_false (h : isFinal c = false) : isEscapeLetter c = false := by
  rw [Bool.eq_false_iff] at h ⊢
  intro hletter
  simp only [isEscapeLetter, Bool.and_eq_true, decide_eq_true_eq] at hletter
  obtain ⟨⟨hlow, hhigh⟩, -⟩ := hletter
  have htilde : c ≤ '~' := Char.le_trans hhigh (by decide)
  exact h (by simp [isFinal, hlow, htilde])

theorem readSequence_bracket (s : Text) : readSequence ('\x1b' :: '[' :: s) = readBody s := rfl

theorem readSequence_letter (h : c ≠ '[') (s : Text) :
    readSequence ('\x1b' :: c :: s) = if isEscapeLetter c then some ((), s) else none := by
  unfold readSequence
  split
  · rename_i heq
    cases heq
    exact absurd rfl h
  · rename_i heq
    cases heq
    rfl
  · rename_i hletter
    exact absurd rfl (hletter c s)

theorem opensWith_readSequence : readSequence.OpensWith '\x1b' := by
  intro s hs
  unfold readSequence
  split
  · exact absurd rfl hs
  · exact absurd rfl hs
  · rfl

theorem exists_of_readBody {s : Text} {r : Unit × Text} (h : readBody s = some r) :
    ∃ source, s = source ++ r.2 := by
  unfold readBody at h
  split at h
  · rename_i c rest hrest
    split at h
    · cases h
      refine ⟨s.takeWhile isParameter ++
        ((s.dropWhile isParameter).takeWhile isIntermediate ++ [c]), ?_⟩
      rw [List.append_assoc, List.append_assoc, List.singleton_append, ← hrest,
        List.takeWhile_append_dropWhile, List.takeWhile_append_dropWhile]
    · cases h
  · cases h

theorem consumes_readSequence : readSequence.Consumes := by
  intro s a rest h
  unfold readSequence at h
  split at h
  · obtain ⟨source, rfl⟩ := exists_of_readBody h
    exact ⟨'\x1b' :: '[' :: source, by simp, rfl⟩
  · rename_i c _ _
    split at h
    · cases h
      exact ⟨['\x1b', c], by simp, rfl⟩
    · cases h
  · cases h

theorem stopsAt_readBody (hc : continues c = false) : readBody.StopsAt c := by
  obtain ⟨hparameter, hintermediate, hfinal⟩ := continues_eq_false_iff.mp hc
  intro s t
  unfold readBody
  rw [dropWhile_append_cons hparameter, dropWhile_append_cons hintermediate]
  cases (s.dropWhile isParameter).dropWhile isIntermediate with
  | nil => simp [hfinal]
  | cons a rest => by_cases ha : isFinal a <;> simp [ha]

/-- A character that does not go on with a sequence cuts it off, wherever in it the text before
ends. -/
theorem endsBefore_readSequence (hc : continues c = false) (t : Text) :
    readSequence.EndsBefore (c :: t) := by
  obtain ⟨-, -, hfinal⟩ := continues_eq_false_iff.mp hc
  intro s hs
  obtain ⟨a, s, rfl⟩ := List.exists_cons_of_ne_nil hs
  by_cases ha : a = '\x1b'
  · subst ha
    cases s with
    | nil =>
        have hbracket : c ≠ '[' := by
          rintro rfl
          cases hfinal
        have hletter := isEscapeLetter_eq_false hfinal
        rw [List.singleton_append, readSequence_letter hbracket, if_neg (by simp [hletter])]
        rfl
    | cons b rest =>
        by_cases hb : b = '['
        · subst hb
          exact stopsAt_readBody hc rest t
        · rw [List.cons_append, List.cons_append, readSequence_letter hb, readSequence_letter hb]
          split <;> rfl
  · have hnone (u : Text) : readSequence (a :: u) = none :=
      opensWith_readSequence _ (by simpa using ha)
    rw [List.cons_append, hnone, hnone]
    rfl

end Sequences

/-! ## Stripping -/

section Stripping

variable {c : Char} {s : Text}

theorem stripColors_append_cons (hc : continues c = false) (s t : Text) :
    stripColors (s ++ c :: t) = stripColors s ++ stripColors (c :: t) :=
  replaceAll_append _ consumes_readSequence (endsBefore_readSequence hc t) s

theorem stripColors_plain_append (hs : '\x1b' ∉ s) (t : Text) :
    stripColors (s ++ t) = s ++ stripColors t :=
  replaceAll_append_of_opensWith _ opensWith_readSequence hs t

theorem stripColors_plain (hs : '\x1b' ∉ s) : stripColors s = s :=
  replaceAll_of_opensWith _ opensWith_readSequence hs

theorem isParameter_of_mem_parameter (style : Style) : ∀ c ∈ style.parameter, isParameter c := by
  cases style <;> decide

theorem readSequence_sequence (style : Style) (s : Text) :
    readSequence (style.sequence ++ s) = some ((), s) := by
  have hsequence : style.sequence ++ s = '\x1b' :: '[' :: (style.parameter ++ 'm' :: s) := by
    simp [Style.sequence]
  have hbody : (style.parameter ++ 'm' :: s).dropWhile isParameter = 'm' :: s :=
    (takeWhile_append_of_head (isParameter_of_mem_parameter style) (by simp [isParameter])).2
  rw [hsequence, readSequence_bracket, readBody, hbody]
  rfl

theorem stripColors_sequence_append (style : Style) (s : Text) :
    stripColors (style.sequence ++ s) = stripColors s :=
  replaceAll_of_some _ (List.cons_ne_nil _ _) (readSequence_sequence style s)

theorem stripColors_sequences_append (styles : List Style) (s : Text) :
    stripColors (styles.flatMap Style.sequence ++ s) = stripColors s := by
  induction styles with
  | nil => rfl
  | cons style styles ih =>
      rw [List.flatMap_cons, List.append_assoc, stripColors_sequence_append, ih]

/-- The sequence that ends a style cuts off whatever the text before it leaves open. -/
theorem stripColors_append_sequence (s : Text) (style : Style) (t : Text) :
    stripColors (s ++ (style.sequence ++ t)) = stripColors s ++ stripColors t := by
  have hescape : continues '\x1b' = false := by decide
  rw [← stripColors_sequence_append style t]
  exact stripColors_append_cons hescape s _

theorem stripColors_colorize_plain_append (styling : Bool) (styles : List Style)
    (hs : '\x1b' ∉ s) (t : Text) :
    stripColors (colorize styling styles s ++ t) = s ++ stripColors t := by
  unfold colorize
  split
  · rw [List.append_assoc, List.append_assoc, stripColors_sequences_append,
      stripColors_plain_append hs, stripColors_sequence_append]
  · exact stripColors_plain_append hs t

theorem stripColors_colorize (styling : Bool) (styles : List Style) (s : Text) :
    stripColors (colorize styling styles s) = stripColors s := by
  unfold colorize
  split
  · have hstyled := stripColors_append_sequence s .reset []
    rw [List.append_nil] at hstyled
    rw [List.append_assoc, stripColors_sequences_append, hstyled]
    exact List.append_nil _
  · rfl

end Stripping

/-! ## Diagnostics -/

theorem escape_notMem_value (code : ErrorCode) : '\x1b' ∉ code.value := by
  cases code <;> decide

theorem escape_notMem_docsUrl (code : ErrorCode) : '\x1b' ∉ code.docsUrl := by
  cases code <;> decide

theorem errorHeader_value (styling : Bool) (code : ErrorCode) (message : Text) :
    errorHeader styling (some code.value) message =
      Role.errorCode.apply styling code.value ++ ": " ++ message := by
  cases code <;> rfl

theorem stripColors_errorHeader (styling : Bool) (code : ErrorCode) (message : Text) :
    stripColors (errorHeader styling (some code.value) message) =
      code.value ++ (": " ++ stripColors message) := by
  rw [errorHeader_value, List.append_assoc, Role.apply,
    stripColors_colorize_plain_append styling _ (escape_notMem_value code),
    stripColors_plain_append (by decide)]

/-- The last line of a diagnostic, behind whatever the lines before it leave open. -/
theorem stripColors_append_docs (styling : Bool) (header : Text) (code : ErrorCode) :
    stripColors (header ++ "\n  " ++ Role.dim.apply styling "Docs:" ++ " " ++
      Role.docsUrl.apply styling code.docsUrl) =
        stripColors header ++ ("\n  " ++ ("Docs:" ++ (" " ++ code.docsUrl))) := by
  have hbreak : continues '\n' = false := by decide
  have hurl : stripColors (Role.docsUrl.apply styling code.docsUrl) = code.docsUrl := by
    rw [Role.apply, stripColors_colorize, stripColors_plain (escape_notMem_docsUrl code)]
  have hlead (t : Text) : stripColors (Role.dim.apply styling "Docs:" ++ t) =
      "Docs:" ++ stripColors t :=
    stripColors_colorize_plain_append styling _ (by decide) t
  simp only [List.append_assoc]
  refine (stripColors_append_cons hbreak header _).trans (congrArg (stripColors header ++ ·) ?_)
  calc
    stripColors ("\n  " ++ (Role.dim.apply styling "Docs:" ++
        (" " ++ Role.docsUrl.apply styling code.docsUrl)))
    _ = "\n  " ++ ("Docs:" ++ (" " ++
        stripColors (Role.docsUrl.apply styling code.docsUrl))) := by
      rw [stripColors_plain_append (by decide), hlead, stripColors_plain_append (by decide)]
    _ = "\n  " ++ ("Docs:" ++ (" " ++ code.docsUrl)) := by rw [hurl]

/-- A diagnostic without its styles. -/
theorem stripColors_compact (styling : Bool) {fault : Fault} {code : ErrorCode}
    (h : fault.code? = some code) :
    stripColors (compact styling fault) =
      (if hasPart code.value fault.message then stripColors fault.message
        else code.value ++ (": " ++ stripColors fault.message)) ++
          ("\n  " ++ ("Docs:" ++ (" " ++ code.docsUrl))) := by
  unfold compact
  rw [h]
  dsimp only
  rw [stripColors_append_docs]
  split
  · rfl
  · rw [stripColors_errorHeader]

theorem message_infix_compact (styling : Bool) (fault : Fault) :
    fault.message <:+: compact styling fault := by
  unfold compact
  cases fault.code? with
  | none => exact List.infix_refl _
  | some code =>
      have hheader : fault.message <:+: if hasPart code.value fault.message then fault.message
          else errorHeader styling (some code.value) fault.message := by
        split
        · exact List.infix_refl _
        · rw [errorHeader_value]
          exact (List.suffix_append _ _).isInfix
      simp only [List.append_assoc]
      exact hheader.trans (List.prefix_append _ _).isInfix

/-- Styles come off again: a styled text is stripped to what the text itself is stripped to, and a
diagnostic to the same with styling and without. Either way it holds the message of the fault, which
knows of no styles. -/
theorem styles_come_off :
    (∀ (styling : Bool) (names : List Text) (s : Text),
      stripColors (colorize styling (names.filterMap Style.ofName?) s) = stripColors s) ∧
    ∀ fault : Fault, stripColors (compact true fault) = stripColors (compact false fault) ∧
      ∀ styling, fault.message <:+: compact styling fault := by
  refine ⟨fun styling names s => stripColors_colorize styling _ s, fun fault => ⟨?_, ?_⟩⟩
  · cases h : fault.code? with
    | none => rw [compact, compact, h]
    | some code => rw [stripColors_compact true h, stripColors_compact false h]
  · exact fun styling => message_infix_compact styling fault

example : stripColors (colorize true [.red, .bold] "\x1b[3") = "\x1b[3" := by decide

end StaticSite.Terminal
