import Mathlib.Data.List.Basic
import Mathlib.Data.List.TakeWhile
import StaticSite.Proofs.Asset.Loaded
import StaticSite.Proofs.Asset.Reading
import StaticSite.Proofs.Markup.Hole

/-!
# Scripts of a development server

A script element without content is inlined as a whole or not at all, and taken out as a whole or
not at all. Inlining puts a bare opening tag in place of the one that a marker stands in, so what
is inlined is not taken out any more.
-/

namespace StaticSite.Asset

open Text Engine

/-- A script element without content. -/
def scriptTag (attrs : Text) : Text := "<script" ++ attrs ++ "></script>"

/-- The marker stands among the attributes, in any letter case. -/
def Mentions (attrs marker : Text) : Prop :=
  ∃ written, SameLetters marker written ∧ written <:+: attrs

theorem mentions_iff {attrs marker : Text} :
    Mentions attrs marker ↔ anyTail (fun u => (afterFolded? marker u).isSome) attrs := by
  rw [anyTail_iff]
  constructor
  · rintro ⟨written, hsame, left, right, rfl⟩
    refine ⟨written ++ right, ⟨left, by rw [List.append_assoc]⟩, ?_⟩
    rw [afterFolded?_eq_some_iff.mpr ⟨written, hsame, rfl⟩]
    rfl
  · rintro ⟨u, ⟨left, rfl⟩, hu⟩
    obtain ⟨right, hright⟩ := Option.isSome_iff_exists.mp hu
    obtain ⟨written, hsame, rfl⟩ := afterFolded?_eq_some_iff.mp hright
    exact ⟨written, hsame, left, right, by rw [List.append_assoc]⟩

instance (attrs marker : Text) : Decidable (Mentions attrs marker) :=
  decidable_of_iff _ mentions_iff.symm

/-- The text that takes the place of a script tag, if the tag is replaced. -/
def inlinedText? (files : SiteTree) (roots : Roots) (markers : List Text) (tag : Text) :
    Option Text := do
  let (reference, _) ← readScript tag
  scriptText? files roots markers reference

/-- What a build does to the scripts of a page. -/
def buildScripts (roots : Roots) (markers : List Text) (html : Text) : Engine Text := do
  return stripDevScripts markers (← inlineScripts roots markers html)

/-! ## Reading a script tag -/

theorem readQuotedValue_eq_some_iff {s value rest : Text} :
    readQuotedValue s = some (value, rest) ↔ value ≠ [] ∧ (∀ c ∈ value, isQuote c = false) ∧
      ∃ q q', isQuote q ∧ isQuote q' ∧ s = q :: (value ++ q' :: rest) := by
  constructor
  · intro h
    cases s with
    | nil => cases h
    | cons q s =>
        rw [readQuotedValue] at h
        split at h
        · cases h
        · rename_i hopen
          simp only [Bool.or_eq_true, Bool.not_eq_true', not_or, Bool.not_eq_false,
            List.isEmpty_iff] at hopen
          cases hdrop : s.dropWhile (!isQuote ·) with
          | nil => simp [hdrop] at h
          | cons q' more =>
              rw [hdrop] at h
              cases h
              refine ⟨hopen.2, fun c hc => by simpa using List.mem_takeWhile_imp hc, q, q',
                hopen.1, ?_, ?_⟩
              · have hhead := List.head?_dropWhile_not (fun c => !isQuote c) s
                simpa [hdrop] using hhead
              · rw [← hdrop, List.takeWhile_append_dropWhile]
  · rintro ⟨hne, hvalue, q, q', hq, hq', rfl⟩
    have hrun : ∀ c ∈ value, (!isQuote c) = true := by
      intro c hc
      rw [hvalue c hc]
      rfl
    have hrest : ∀ c ∈ (q' :: rest).head?, (!isQuote c) = false := by
      rintro c ⟨⟩
      rw [hq']
      rfl
    obtain ⟨htake, hdrop⟩ := takeWhile_append_of_head hrun hrest
    rw [readQuotedValue]
    simp [htake, hdrop, hq, hne]

/-- Reads a reference between quotes and goes on to the end of an element without content. -/
def readScriptValue : Recogniser Text := fun s => do
  let (reference, after) ← readQuotedValue s
  let (_, closed) ← cut? '>' after
  let rest ← afterFolded? "</script>" closed
  return (reference, rest)

theorem readScriptEnd_eq :
    readScriptEnd = fun s => (afterFolded? "src=" s).bind readScriptValue := rfl

section Value

variable {q q' : Char} {value left closed : Text}

theorem readScriptValue_close (hq : isQuote q) (hne : value ≠ [])
    (hvalue : ∀ c ∈ value, isQuote c = false) (hq' : isQuote q') (hleft : '>' ∉ left) :
    readScriptValue (q :: (value ++ q' :: (left ++ '>' :: closed))) =
      (afterFolded? "</script>" closed).map fun rest => (value, rest) := by
  rw [readScriptValue, readQuotedValue_eq_some_iff.mpr ⟨hne, hvalue, q, q', hq, hq', rfl⟩]
  simp only [Option.bind_eq_bind, Option.bind_some, cut?_eq_some_iff.mpr ⟨rfl, hleft⟩]
  cases afterFolded? "</script>" closed <;> rfl

end Value

theorem readScriptEnd_eq_some_iff {s reference rest : Text} :
    readScriptEnd s = some (reference, rest) ↔
      ∃ named q q' left closing, SameLetters "src=" named ∧ isQuote q ∧ reference ≠ [] ∧
        (∀ c ∈ reference, isQuote c = false) ∧ isQuote q' ∧ '>' ∉ left ∧
        SameLetters "</script>" closing ∧
        s = named ++ q :: (reference ++ q' :: (left ++ '>' :: (closing ++ rest))) := by
  constructor
  · intro h
    simp only [readScriptEnd, Option.bind_eq_bind, Option.bind_eq_some_iff] at h
    obtain ⟨after, hnamed, ⟨value, tail⟩, hvalue, ⟨left, closed⟩, hcut, last, hlast, h⟩ := h
    simp only [Option.pure_def, Option.some.injEq, Prod.mk.injEq] at h
    obtain ⟨rfl, rfl⟩ := h
    obtain ⟨named, hsame, rfl⟩ := afterFolded?_eq_some_iff.mp hnamed
    obtain ⟨hne, hquotes, q, q', hq, hq', rfl⟩ := readQuotedValue_eq_some_iff.mp hvalue
    obtain ⟨rfl, hleft⟩ := cut?_eq_some_iff.mp hcut
    obtain ⟨closing, hclosing, rfl⟩ := afterFolded?_eq_some_iff.mp hlast
    exact ⟨named, q, q', left, closing, hsame, hq, hne, hquotes, hq', hleft, hclosing, rfl⟩
  · rintro ⟨named, q, q', left, closing, hsame, hq, hne, hquotes, hq', hleft, hclosing, rfl⟩
    have hnamed : afterFolded? "src="
        (named ++ q :: (reference ++ q' :: (left ++ '>' :: (closing ++ rest)))) = _ :=
      afterFolded?_eq_some_iff.mpr ⟨named, hsame, rfl⟩
    simp only [readScriptEnd_eq, hnamed, Option.bind_some]
    rw [readScriptValue_close hq hne hquotes hq' hleft,
      afterFolded?_eq_some_iff.mpr ⟨closing, hclosing, rfl⟩]
    rfl

section Close

variable {u after rest : Text}

theorem exists_of_closing {s : Text} (h : afterFolded? "</script>" s = some rest) :
    ∃ name, name.length = 8 ∧ s = '<' :: (name ++ rest) := by
  have hmark : "</script>".toList = '<' :: "/script>".toList := rfl
  obtain ⟨written, hsame, rfl⟩ := afterFolded?_eq_some_iff.mp h
  rw [hmark] at hsame
  obtain ⟨c, name, rfl, hletter, hname⟩ := sameLetters_cons_iff.mp hsame
  have hlen := congrArg List.length hname
  rw [List.length_map, List.length_map] at hlen
  rw [sameLetter_iff_of_caseless isCaseless_open] at hletter
  refine ⟨name, hlen.symm, ?_⟩
  rw [hletter, List.cons_append]

/-- Only one end of an element stands in a text that holds one `<`. -/
theorem closing_unique {front name : Text} (hu : '<' ∉ u) (hafter : '<' ∉ after)
    (hname : name.length = 8)
    (h : u ++ '>' :: ("</script>" ++ after) = front ++ '<' :: (name ++ rest)) :
    front = u ++ ['>'] ∧ rest = after := by
  have hcut : (u ++ ['>']) ++ '<' :: ("/script>" ++ after) = front ++ '<' :: (name ++ rest) := by
    rw [← h]
    simp
  obtain ⟨hfront, -, hrest⟩ := (List.append_cons_inj_of_notMem
    (by simp [hu]) (by simp [hafter])).mp hcut
  exact ⟨hfront.symm, (List.append_inj hrest (by simp [hname])).2.symm⟩

theorem readScriptEnd_close {reference : Text} (hu : '<' ∉ u) (hafter : '<' ∉ after)
    (h : readScriptEnd (u ++ '>' :: ("</script>" ++ after)) = some (reference, rest)) :
    rest = after ∧ ∀ other,
      readScriptEnd (u ++ '>' :: ("</script>" ++ other)) = some (reference, other) := by
  obtain ⟨named, q, q', left, closing, hnamed, hq, hne, hquotes, hq', hleft, hclosing, hs⟩ :=
    readScriptEnd_eq_some_iff.mp h
  obtain ⟨name, hname, hform⟩ :=
    exists_of_closing (afterFolded?_eq_some_iff.mpr ⟨closing, hclosing, rfl⟩)
  have hends : u ++ '>' :: ("</script>" ++ after) =
      (named ++ q :: (reference ++ q' :: left) ++ ['>']) ++ '<' :: (name ++ rest) := by
    rw [hs, hform]
    simp
  obtain ⟨hfront, rfl⟩ := closing_unique hu hafter hname hends
  have hparts : u = named ++ q :: (reference ++ q' :: left) :=
    (List.append_cancel_right hfront).symm
  refine ⟨rfl, fun other => readScriptEnd_eq_some_iff.mpr ?_⟩
  exact ⟨named, q, q', left, "</script>", hnamed, hq, hne, hquotes, hq', hleft, rfl,
    by rw [hparts]; simp⟩

/-- A marker read before the end of a script tag stands in the tag. -/
theorem readMarkedEnd_close {marker : Text} {a : Unit} (hu : '<' ∉ u) (hclose : '>' ∉ u)
    (hafter : '<' ∉ after)
    (h : readMarkedEnd marker (u ++ '>' :: ("</script>" ++ after)) = some (a, rest)) :
    rest = after ∧ ∃ written, SameLetters marker written ∧ written <+: u := by
  simp only [readMarkedEnd, Option.bind_eq_bind, Option.bind_eq_some_iff] at h
  obtain ⟨tail, hmarker, ⟨left, content⟩, hcut, h⟩ := h
  obtain ⟨written, hsame, hs⟩ := afterFolded?_eq_some_iff.mp hmarker
  obtain ⟨rfl, hleft⟩ := cut?_eq_some_iff.mp hcut
  obtain ⟨last, ⟨skipped, hskipped⟩, hlast⟩ := exists_of_readFirst? h
  obtain ⟨more, hend, heq⟩ := Option.map_eq_some_iff.mp hlast
  cases heq
  obtain ⟨name, hname, rfl⟩ := exists_of_closing hend
  have hends : u ++ '>' :: ("</script>" ++ after) =
      (written ++ left ++ '>' :: skipped) ++ '<' :: (name ++ rest) := by
    rw [hs, show content = skipped ++ '<' :: (name ++ rest) from hskipped.symm]
    simp
  obtain ⟨hfront, rfl⟩ := closing_unique hu hafter hname hends
  obtain ⟨rfl, -, -⟩ := (List.append_cons_inj_of_notMem hclose (by simp)).mp hfront.symm
  exact ⟨rfl, written, hsame, List.prefix_append written left⟩

theorem readMarkedEnd_of_mention {marker written : Text} (hclose : '>' ∉ u)
    (hsame : SameLetters marker written) (hwritten : written <+: u) :
    readMarkedEnd marker (u ++ '>' :: ("</script>" ++ after)) = some ((), after) := by
  obtain ⟨left, rfl⟩ := hwritten
  have hmarker : afterFolded? marker (written ++ left ++ '>' :: ("</script>" ++ after)) =
      some (left ++ '>' :: ("</script>" ++ after)) :=
    afterFolded?_eq_some_iff.mpr ⟨written, hsame, by simp⟩
  have hcut : cut? '>' (left ++ '>' :: ("</script>" ++ after)) =
      some (left, "</script>" ++ after) :=
    cut?_eq_some_iff.mpr ⟨rfl, fun h => hclose (List.mem_append_right written h)⟩
  have hend : afterFolded? "</script>" ("</script>" ++ after) = some after :=
    afterFolded?_append _ _
  simp only [readMarkedEnd, hmarker, hcut, Option.bind_eq_bind, Option.bind_some]
  have hform : "</script>" ++ after = '<' :: ("/script>" ++ after) := rfl
  rw [hform] at hend ⊢
  rw [readFirst?, hend]
  rfl

theorem scriptTag_eq_cons (attrs : Text) :
    scriptTag attrs = '<' :: ("script" ++ attrs ++ "></script>") := rfl

theorem scriptTag_append (attrs : Text) :
    scriptTag attrs ++ after = "<script" ++ (attrs ++ '>' :: ("</script>" ++ after)) := by
  have hend : "></script>".toList ++ after = '>' :: ("</script>".toList ++ after) := rfl
  unfold scriptTag
  rw [List.append_assoc, List.append_assoc, hend]

theorem afterFolded?_scriptTag (attrs : Text) :
    afterFolded? "<script" (scriptTag attrs ++ after) =
      some (attrs ++ '>' :: ("</script>" ++ after)) := by
  rw [scriptTag_append]
  exact afterFolded?_append _ _

variable {attrs : Text}

theorem takeWhile_close (hclose : '>' ∉ attrs) (more : Text) :
    (attrs ++ '>' :: more).takeWhile (· != '>') = attrs := by
  have hrun : ∀ c ∈ attrs, (c != '>') = true := by
    intro c hc
    rw [bne_iff_ne]
    rintro rfl
    exact hclose hc
  have hrest : ∀ c ∈ ('>' :: more).head?, (c != '>') = false := by
    rintro c ⟨⟩
    rfl
  exact (takeWhile_append_of_head hrun hrest).1

theorem tailsFrom_append {s t : Text} {n : Nat} (h : n ≤ s.length) :
    tailsFrom n (s ++ t) = (tailsFrom n s).map (· ++ t) := by
  rw [tailsFrom, tailsFrom, List.map_map]
  apply List.map_congr_left
  intro k hk
  rw [List.mem_reverse, List.mem_range] at hk
  exact List.drop_append_of_le_length (by omega)

theorem readScript_scriptTag_eq (hclose : '>' ∉ attrs) :
    readScript (scriptTag attrs ++ after) = ((tailsFrom attrs.length attrs).dropLast).findSome?
      fun u => readScriptEnd (u ++ '>' :: ("</script>" ++ after)) := by
  simp only [readScript, afterFolded?_scriptTag, Option.bind_eq_bind, Option.bind_some]
  rw [takeWhile_close hclose, tailsFrom_append (Nat.le_refl _), ← List.map_dropLast,
    List.findSome?_map]
  rfl

theorem readScript_scriptTag (hopen : '<' ∉ attrs) (hclose : '>' ∉ attrs) (hafter : '<' ∉ after) :
    readScript (scriptTag attrs ++ after) =
      (readScript (scriptTag attrs)).map fun r => (r.1, after) := by
  have hbare : readScript (scriptTag attrs ++ []) = _ := readScript_scriptTag_eq hclose
  rw [List.append_nil] at hbare
  rw [readScript_scriptTag_eq hclose, hbare]
  apply Markup.findSome?_eq_map
  intro u hu
  have hu : '<' ∉ u := fun h =>
    hopen ((suffix_of_mem_tailsFrom ((List.dropLast_sublist _).subset hu)).subset h)
  cases hlone : readScriptEnd (u ++ '>' :: ("</script>" ++ ([] : Text))) with
  | some r =>
      obtain ⟨-, hany⟩ := readScriptEnd_close hu List.not_mem_nil hlone
      exact hany after
  | none =>
      cases hjoined : readScriptEnd (u ++ '>' :: ("</script>" ++ after)) with
      | none => rfl
      | some r =>
          obtain ⟨-, hany⟩ := readScriptEnd_close hu hafter hjoined
          rw [hany []] at hlone
          cases hlone

theorem readMarkedScript_scriptTag (marker : Text) (hclose : '>' ∉ attrs) :
    readMarkedScript marker (scriptTag attrs ++ after) =
      (tailsFrom attrs.length attrs).findSome?
        fun u => readMarkedEnd marker (u ++ '>' :: ("</script>" ++ after)) := by
  simp only [readMarkedScript, afterFolded?_scriptTag, Option.bind_eq_bind, Option.bind_some]
  rw [takeWhile_close hclose, tailsFrom_append (Nat.le_refl _), List.findSome?_map]
  rfl

theorem exists_of_readMarkedScript {marker : Text} {a : Unit} (hopen : '<' ∉ attrs)
    (hclose : '>' ∉ attrs) (hafter : '<' ∉ after)
    (h : readMarkedScript marker (scriptTag attrs ++ after) = some (a, rest)) :
    rest = after ∧ Mentions attrs marker := by
  rw [readMarkedScript_scriptTag marker hclose] at h
  obtain ⟨u, hu, h⟩ := List.exists_of_findSome?_eq_some h
  have hsuffix := suffix_of_mem_tailsFrom hu
  obtain ⟨hrest, written, hsame, hwritten⟩ := readMarkedEnd_close
    (fun h => hopen (hsuffix.subset h)) (fun h => hclose (hsuffix.subset h)) hafter h
  exact ⟨hrest, written, hsame, hwritten.isInfix.trans hsuffix.isInfix⟩

theorem readMarkedScript_of_mentions {marker : Text} (hopen : '<' ∉ attrs) (hclose : '>' ∉ attrs)
    (hafter : '<' ∉ after) (h : Mentions attrs marker) :
    readMarkedScript marker (scriptTag attrs ++ after) = some ((), after) := by
  cases hread : readMarkedScript marker (scriptTag attrs ++ after) with
  | some r =>
      obtain ⟨heq, -⟩ := exists_of_readMarkedScript hopen hclose hafter hread
      rw [← heq]
  | none =>
      obtain ⟨written, hsame, left, right, rfl⟩ := h
      have htail : written ++ right ∈ tailsFrom (left ++ written ++ right).length
          (left ++ written ++ right) := by
        refine List.mem_map.mpr ⟨left.length, ?_, by simp⟩
        rw [List.mem_reverse, List.mem_range]
        simp only [List.length_append]
        omega
      rw [readMarkedScript_scriptTag marker hclose, List.findSome?_eq_none_iff] at hread
      have hclose : '>' ∉ written ++ right := by
        rw [List.append_assoc] at hclose
        exact fun h => hclose (List.mem_append_right left h)
      have hsome := @readMarkedEnd_of_mention _ after marker written hclose hsame
        (List.prefix_append written right)
      rw [hread _ htail] at hsome
      cases hsome

end Close

/-! ## Passes over a page with one script tag -/

section Pass

variable {α : Type} {read : Recogniser α} {before attrs after : Text}

/-- A pass changes the tag as a whole or nothing. -/
theorem replaceAll_scriptTag (found : Option α) (write : α → Text → Text)
    (opens : read.OpensWith '<') (slash : ∀ s, read ('<' :: '/' :: s) = none)
    (hbefore : '<' ∉ before) (hopen : '<' ∉ attrs) (hafter : '<' ∉ after)
    (h : read (scriptTag attrs ++ after) = found.map fun a => (a, after)) :
    replaceAll read write (before ++ (scriptTag attrs ++ after)) =
      before ++ (found.elim (scriptTag attrs) (write · (scriptTag attrs)) ++ after) := by
  rw [replaceAll_append_of_opensWith write opens hbefore, List.append_cancel_left_eq]
  cases found with
  | some a =>
      have hne : scriptTag attrs ≠ [] := by
        rw [scriptTag_eq_cons]
        exact List.cons_ne_nil _ _
      rw [replaceAll_of_some write hne h, replaceAll_of_opensWith write opens hafter]
      rfl
  | none =>
      have hclosing : "</script>".toList ++ after = '<' :: '/' :: ("script>" ++ after) := rfl
      have hform : scriptTag attrs ++ after =
          '<' :: (("script" ++ (attrs ++ ['>'])) ++ '<' :: '/' :: ("script>" ++ after)) := by
        rw [scriptTag_append, hclosing]
        simp
      have hinner : '<' ∉ "script".toList ++ (attrs ++ ['>']) := by simp [hopen]
      have hend : '<' ∉ '/' :: ("script>".toList ++ after) := by simp [hafter]
      rw [hform] at h ⊢
      rw [replaceAll_cons_of_none write h, replaceAll_append_of_opensWith write opens hinner,
        replaceAll_cons_of_none write (slash _), replaceAll_of_opensWith write opens hend,
        Option.elim_none, hform]

theorem stripDevScripts_of_notMem (markers : List Text) {s : Text} (hs : '<' ∉ s) :
    stripDevScripts markers s = s := by
  induction markers with
  | nil => rfl
  | cons marker markers ih =>
      rw [stripDevScripts, List.foldl_cons,
        replaceAll_of_opensWith _ (opensWith_readMarkedScript marker) hs]
      exact ih

/-- One mention is enough for the tag to be taken out. -/
theorem stripDevScripts_scriptTag {markers : List Text} (hbefore : '<' ∉ before)
    (hopen : '<' ∉ attrs) (hclose : '>' ∉ attrs) (hafter : '<' ∉ after)
    (hmention : ∃ marker ∈ markers, Mentions attrs marker) :
    stripDevScripts markers (before ++ (scriptTag attrs ++ after)) = before ++ after := by
  induction markers with
  | nil => simp at hmention
  | cons marker markers ih =>
      have pass (found : Option Unit)
          (h : readMarkedScript marker (scriptTag attrs ++ after) =
            found.map fun a => (a, after)) :=
        replaceAll_scriptTag found (fun _ _ => []) (opensWith_readMarkedScript marker)
          (readMarkedScript_slash marker) hbefore hopen hafter h
      rw [stripDevScripts, List.foldl_cons]
      by_cases hhead : Mentions attrs marker
      · rw [pass (some ()) (readMarkedScript_of_mentions hopen hclose hafter hhead)]
        have hpage : '<' ∉ before ++ after := by simp [hbefore, hafter]
        exact stripDevScripts_of_notMem markers hpage
      · have hnone : readMarkedScript marker (scriptTag attrs ++ after) = none := by
          cases hread : readMarkedScript marker (scriptTag attrs ++ after) with
          | none => rfl
          | some r => exact absurd (exists_of_readMarkedScript hopen hclose hafter hread).2 hhead
        rw [pass none hnone]
        apply ih
        obtain ⟨other, hmem, hother⟩ := hmention
        rcases List.mem_cons.mp hmem with rfl | hmem
        · exact absurd hother hhead
        · exact ⟨other, hmem, hother⟩

/-- A bare opening tag is never taken out, unless a marker begins with its end. -/
theorem exists_stripDevScripts_bare {markers : List Text}
    (hmarkers : ∀ marker ∈ markers, marker ≠ [] ∧ marker.head? ≠ some '>') (hbefore : '<' ∉ before)
    (s : Text) :
    ∃ t, stripDevScripts markers (before ++ ("<script>" ++ s)) = before ++ ("<script>" ++ t) := by
  induction markers generalizing s with
  | nil => exact ⟨s, rfl⟩
  | cons marker markers ih =>
      obtain ⟨hne, hhead⟩ := hmarkers marker List.mem_cons_self
      have opens := opensWith_readMarkedScript marker
      have hnone := readMarkedScript_bare hne hhead s
      have hform : "<script>".toList ++ s = '<' :: ("script>" ++ s) := rfl
      have hinner : '<' ∉ "script>".toList := by simp
      rw [hform] at hnone
      rw [stripDevScripts, List.foldl_cons, replaceAll_append_of_opensWith _ opens hbefore, hform,
        replaceAll_cons_of_none _ hnone, replaceAll_append_of_opensWith _ opens hinner]
      exact ih (fun other hother => hmarkers other (List.mem_cons_of_mem _ hother)) _

variable {files : SiteTree} {roots : Roots} {markers : List Text}

theorem replaceAll_scripted_scriptTag (hbefore : '<' ∉ before) (hopen : '<' ∉ attrs)
    (hclose : '>' ∉ attrs) (hafter : '<' ∉ after) :
    replaceAll readScript (scripted files roots markers) (before ++ (scriptTag attrs ++ after)) =
      before ++ (((inlinedText? files roots markers (scriptTag attrs)).map scriptElement).getD
        (scriptTag attrs) ++ after) := by
  have hread := readScript_scriptTag hopen hclose hafter
  unfold inlinedText?
  cases halone : readScript (scriptTag attrs) with
  | none =>
      rw [halone] at hread
      exact replaceAll_scriptTag none _ opensWith_readScript readScript_slash hbefore hopen
        hafter hread
  | some r =>
      rw [halone] at hread
      rw [replaceAll_scriptTag (some r.1) _ opensWith_readScript readScript_slash hbefore hopen
        hafter hread, Option.elim_some]
      rfl

theorem exec_buildScripts (s : Session) (html : Text) :
    ((buildScripts roots markers html).exec files s).1 =
      .ok (stripDevScripts markers
        (replaceAll readScript (scripted files roots markers) html)) := by
  obtain ⟨out, hok, rfl⟩ := ensures_inlineScripts roots markers html s
  rw [buildScripts, exec_bind_of_ok hok]
  rfl

/-- A script tag that mentions a marker leaves no trace in the page exactly when its script is not
inlined, or else the inlined script is taken out again, which takes a marker that begins with the
end of a tag. -/
theorem buildScripts_scriptTag_iff (hmarkers : ∀ marker ∈ markers, marker ≠ [])
    (hbefore : '<' ∉ before) (hafter : '<' ∉ after) (hopen : '<' ∉ attrs) (hclose : '>' ∉ attrs)
    (hmention : ∃ marker ∈ markers, Mentions attrs marker) (s s' : Session) :
    (((buildScripts roots markers (before ++ (scriptTag attrs ++ after))).exec files s).1 =
        ((buildScripts roots markers (before ++ after)).exec files s').1 ↔
      ∀ js, inlinedText? files roots markers (scriptTag attrs) = some js →
        stripDevScripts markers (before ++ (scriptElement js ++ after)) = before ++ after) ∧
    ((∀ marker ∈ markers, marker.head? ≠ some '>') →
      (((buildScripts roots markers (before ++ (scriptTag attrs ++ after))).exec files s).1 =
          ((buildScripts roots markers (before ++ after)).exec files s').1 ↔
        inlinedText? files roots markers (scriptTag attrs) = none)) := by
  have hpage : '<' ∉ before ++ after := by simp [hbefore, hafter]
  rw [exec_buildScripts, exec_buildScripts, replaceAll_of_opensWith _ opensWith_readScript hpage,
    stripDevScripts_of_notMem markers hpage,
    replaceAll_scripted_scriptTag hbefore hopen hclose hafter, Except.ok.injEq]
  cases hjs : inlinedText? files roots markers (scriptTag attrs) with
  | none =>
      have hgone := stripDevScripts_scriptTag hbefore hopen hclose hafter hmention
      simp [hgone]
  | some js =>
      refine ⟨by simp, fun hheads => ?_⟩
      have hform :
          scriptElement js ++ after = "<script>" ++ ("\n" ++ js ++ "\n</script>" ++ after) := rfl
      obtain ⟨left, hleft⟩ := exists_stripDevScripts_bare
        (fun marker hmem => ⟨hmarkers marker hmem, hheads marker hmem⟩) hbefore
        ("\n" ++ js ++ "\n</script>" ++ after)
      rw [Option.map_some, Option.getD_some, hform, hleft]
      refine iff_of_false (fun heq => hpage ?_) (by simp)
      rw [← heq]
      exact List.mem_append_right before List.mem_cons_self

end Pass

def clientRoots : Roots := .of (Path.ofText "src") none defaultAssetsDir

/-- A tree in which the client of a development server is a file, in capital letters. -/
def clientFiles : SiteTree :=
  ⟨.folder [("src", .folder [("@VITE", .folder [("client.js", textFile "hot()")])])], []⟩

def clientAttrs : Text := " src=\"/@VITE/client.js\""

theorem mentions_clientAttrs : Mentions clientAttrs "@vite" :=
  ⟨"@VITE", by decide +kernel, " src=\"/", "/client.js\"", rfl⟩

theorem buildScripts_scriptTag_iff_client :
    ((buildScripts clientRoots defaultMarkers ("a" ++ (scriptTag clientAttrs ++ "b"))).exec
        ⟨.folder [], []⟩ Session.start).1 =
      ((buildScripts clientRoots defaultMarkers ("a" ++ "b")).exec ⟨.folder [], []⟩
        Session.start).1 := by
  have hmention : ∃ marker ∈ defaultMarkers, Mentions clientAttrs marker :=
    ⟨"@vite", by decide, mentions_clientAttrs⟩
  exact ((buildScripts_scriptTag_iff (by decide) (by decide) (by decide) (by decide) (by decide)
    hmention Session.start Session.start).2 (by decide)).mpr (by decide +kernel)

/-- The script of a client in capital letters is inlined and stays in the page. -/
theorem buildScripts_client_stays :
    ((buildScripts clientRoots defaultMarkers ("a" ++ (scriptTag clientAttrs ++ "b"))).exec
        clientFiles Session.start).1 ≠
      ((buildScripts clientRoots defaultMarkers ("a" ++ "b")).exec clientFiles
        Session.start).1 := by
  have hlong : ((buildScripts clientRoots defaultMarkers
      ("a" ++ (scriptTag clientAttrs ++ "b"))).exec clientFiles Session.start).1.toOption =
        some ("a" ++ (scriptElement "hot()" ++ "b")) := by
    decide +kernel
  have hshort : ((buildScripts clientRoots defaultMarkers ("a" ++ "b")).exec clientFiles
      Session.start).1.toOption = some ("a" ++ "b") := by
    decide +kernel
  intro heq
  rw [heq, hshort] at hlong
  exact absurd hlong (by decide)

end StaticSite.Asset
