import StaticSite.Proofs.Asset.DevScript
import StaticSite.Proofs.Text.Matches

/-!
# Matches across the front of a block

When a block takes the place of a match, what is read from the text before it stays the same: a
match that begins before the old match and takes in its `<` would have been found in its stead. The
exception is a script whose reference is not closed before the block and that could not be read
because the reference of the old match holds a `>`.
-/

namespace StaticSite

namespace Text

variable {α : Type} {read : Recogniser α} {before left right : Text}

theorem afterFolded?_append_open {mark u : Text} (hmark : '<' ∉ mark) (hu : u ≠ []) (s : Text) :
    afterFolded? ('<' :: mark) (u ++ '<' :: s) =
      (afterFolded? ('<' :: mark) u).map (· ++ '<' :: s) := by
  cases u with
  | nil => exact absurd rfl hu
  | cons c u =>
      rw [List.cons_append, afterFolded?, afterFolded?]
      split
      · exact afterFolded?_append_cons Asset.isCaseless_open hmark u s
      · rfl

/-- A reading that goes on after a mark is seen alike if the rest is. -/
theorem SeenAlike.after {mark : Text}
    (hleft : afterFolded? mark (before ++ left) = (afterFolded? mark before).map (· ++ left))
    (hright : afterFolded? mark (before ++ right) = (afterFolded? mark before).map (· ++ right))
    (h : ∀ u, afterFolded? mark before = some u → SeenAlike read u left right) :
    SeenAlike (fun s => (afterFolded? mark s).bind read) before left right := by
  rw [SeenAlike]
  simp only [hleft, hright]
  cases hbefore : afterFolded? mark before with
  | none => simp
  | some u => exact h u hbefore

end Text

namespace Asset

open Text

variable {x y u v rest reference : Text}

theorem head_of_read {α : Type} {read : Recogniser α} {r : α × Text} {c : Char}
    (opens : read.OpensWith c) (h : read x = some r) : ∃ s, x = c :: s := by
  cases x with
  | nil =>
      rw [opens [] (by simp)] at h
      cases h
  | cons a s =>
      by_cases ha : a = c
      · exact ⟨s, by rw [ha]⟩
      · rw [opens (a :: s) (by simpa using ha)] at h
        cases h

/-! ## Stylesheet links -/

/-- Reads what follows the name of a link up to the end of the tag. -/
def readLinkBody : Recogniser Unit := fun opened => do
  let (body, rest) ← cut? '>' opened
  if anyTail startsStylesheet (body.drop 1) then return ((), rest) else none

theorem readStylesheetLink_eq :
    readStylesheetLink = fun s => (afterFolded? "<link" s).bind readLinkBody := rfl

theorem readLinkBody_close (hu : '>' ∉ u) (s : Text) :
    readLinkBody (u ++ '>' :: s) =
      if anyTail startsStylesheet (u.drop 1) then some ((), s) else none := by
  rw [readLinkBody, cut?_eq_some_iff.mpr ⟨rfl, hu⟩]
  rfl

/-- A link goes on to the first end of a tag. -/
theorem exists_of_readStylesheetLink (h : readStylesheetLink x = some ((), rest)) :
    ∃ written body, SameLetters "<link" written ∧ '>' ∉ body ∧
      anyTail startsStylesheet (body.drop 1) ∧ x = written ++ (body ++ '>' :: rest) := by
  simp only [readStylesheetLink, Option.bind_eq_bind, Option.bind_eq_some_iff] at h
  obtain ⟨opened, hopen, ⟨body, more⟩, hcut, h⟩ := h
  obtain ⟨written, hsame, rfl⟩ := afterFolded?_eq_some_iff.mp hopen
  obtain ⟨rfl, hbody⟩ := cut?_eq_some_iff.mp hcut
  split at h
  · rename_i hstyle
    cases h
    exact ⟨written, body, hsame, hbody, hstyle, rfl⟩
  · cases h

theorem seenAlike_readLinkBody (hread : readStylesheetLink x = some ((), rest)) (y : Text) :
    SeenAlike readLinkBody u x y := by
  by_cases hclose : '>' ∈ u
  · obtain ⟨body, more, rfl, hbody⟩ := List.eq_append_cons_of_mem hclose
    have hinside (t : Text) : readLinkBody (body ++ '>' :: more ++ t) =
        (if anyTail startsStylesheet (body.drop 1) then some ((), more) else none).map
          fun m => (m.1, m.2 ++ t) := by
      rw [List.append_assoc, List.cons_append, readLinkBody_close hbody]
      split <;> rfl
    exact SeenAlike.of_map (hinside x) (hinside y)
  · -- No tag ends before the match, so the link that begins before it takes it in.
    obtain ⟨written, body, hsame, hbody, hstyle, rfl⟩ := exists_of_readStylesheetLink hread
    have hwritten : '>' ∉ written := notMem_of_sameLetters isCaseless_close (by decide) hsame
    have hlonger : body.drop 1 <:+ (u ++ (written ++ body)).drop 1 := by
      refine List.suffix_of_suffix_length_le ((List.drop_suffix 1 body).trans ?_)
        (List.drop_suffix _ _) ?_
      · exact (List.suffix_append written body).trans (List.suffix_append u _)
      · simp only [List.length_drop, List.length_append]
        omega
    have hform : u ++ (written ++ (body ++ '>' :: rest)) =
        u ++ (written ++ body) ++ '>' :: rest := by simp
    refine @SeenAlike.of_short _ _ _ _ _ () rest ?_ ?_
    · rw [hform, readLinkBody_close (by simp [hclose, hwritten, hbody]),
        if_pos (anyTail_of_suffix hlonger hstyle)]
    · simp only [List.length_append, List.length_cons]
      omega

theorem seenAlike_readStylesheetLink (hread : readStylesheetLink x = some ((), rest)) (hv : v ≠ [])
    (y : Text) : SeenAlike readStylesheetLink v x ('<' :: y) := by
  have hmark : "<link".toList = '<' :: "link" := rfl
  obtain ⟨s, hx⟩ := head_of_read opensWith_readStylesheetLink hread
  rw [readStylesheetLink_eq, hmark]
  exact SeenAlike.after (hx ▸ afterFolded?_append_open (by decide) hv s)
    (afterFolded?_append_open (by decide) hv y) fun u _ => seenAlike_readLinkBody hread _

/-! ## Scripts -/

/-- Reads what follows the name of a script. -/
def readScriptBody : Recogniser Text := fun opened =>
  ((tailsFrom (opened.takeWhile (· != '>')).length opened).dropLast).findSome? readScriptEnd

theorem readScript_eq :
    readScript = fun s => (afterFolded? "<script" s).bind readScriptBody := rfl

/-! ### The places that are read from -/

section Tails

variable {α : Type} {read : Recogniser α} {n k : Nat} {s t : Text}

theorem dropLast_tailsFrom_succ (n : Nat) (s : Text) :
    (tailsFrom (n + 1) s).dropLast = s.drop (n + 1) :: (tailsFrom n s).dropLast := by
  have hsucc : tailsFrom (n + 1) s = s.drop (n + 1) :: tailsFrom n s := by
    rw [tailsFrom, List.range_succ, List.reverse_append]
    rfl
  have hne : tailsFrom n s ≠ [] := by simp [tailsFrom]
  rw [hsucc, List.dropLast_cons_of_ne_nil hne]

theorem exists_of_mem_tailsFrom (h : t ∈ (tailsFrom n s).dropLast) :
    ∃ k < n, t = s.drop (k + 1) := by
  induction n with
  | zero => cases h
  | succ n ih =>
      rw [dropLast_tailsFrom_succ] at h
      rcases List.mem_cons.mp h with rfl | h
      · exact ⟨n, by omega, rfl⟩
      · obtain ⟨k, hk, rfl⟩ := ih h
        exact ⟨k, by omega, rfl⟩

/-- The places are tried from the last one on, so the one that counts is no earlier than `k`. -/
theorem exists_findSome?_tailsFrom (leaves : read.Leaves) (hk : k < n)
    (h : (read (s.drop (k + 1))).isSome) :
    ∃ a rest, ((tailsFrom n s).dropLast).findSome? read = some (a, rest) ∧
      rest.length ≤ s.length - (k + 1) := by
  induction n with
  | zero => omega
  | succ n ih =>
      rw [dropLast_tailsFrom_succ, List.findSome?_cons]
      cases hread : read (s.drop (n + 1)) with
      | some m =>
          refine ⟨m.1, m.2, rfl, ?_⟩
          have hlen := (leaves _ m.1 m.2 hread).length_le
          rw [List.length_drop] at hlen
          omega
      | none =>
          have hne : k ≠ n := by
            rintro rfl
            rw [hread] at h
            cases h
          exact ih (by omega)

end Tails

theorem readScriptBody_close (hu : '>' ∉ u) (s t : Text) :
    readScriptBody (u ++ '>' :: s ++ t) =
      (((tailsFrom u.length (u ++ '>' :: s)).dropLast).map (· ++ t)).findSome? readScriptEnd := by
  rw [readScriptBody, List.append_assoc, List.cons_append, takeWhile_close hu, List.map_dropLast,
    ← tailsFrom_append (by simp), List.append_assoc, List.cons_append]

theorem exists_of_readScript (h : readScript x = some (reference, rest)) :
    ∃ written front tail, SameLetters "<script" written ∧ front ≠ [] ∧ '>' ∉ front ∧
      readScriptEnd tail = some (reference, rest) ∧ x = written ++ (front ++ tail) := by
  simp only [readScript, Option.bind_eq_bind, Option.bind_eq_some_iff] at h
  obtain ⟨opened, hopen, h⟩ := h
  obtain ⟨written, hsame, rfl⟩ := afterFolded?_eq_some_iff.mp hopen
  obtain ⟨tail, htail, h⟩ := List.exists_of_findSome?_eq_some h
  obtain ⟨k, hk, rfl⟩ := exists_of_mem_tailsFrom htail
  have hfront : opened.take (k + 1) <+: opened.takeWhile (· != '>') := by
    refine List.prefix_of_prefix_length_le (List.take_prefix _ _) (List.takeWhile_prefix _) ?_
    rw [List.length_take]
    omega
  refine ⟨written, opened.take (k + 1), _, hsame, ?_, fun hclose => ?_, h, by simp⟩
  · have hlen := (List.takeWhile_prefix (l := opened) (· != '>')).length_le
    rw [← List.length_pos_iff, List.length_take]
    omega
  · simpa using List.mem_takeWhile_imp (hfront.subset hclose)

/-- No tag ends before the script, so an element that begins before it takes it in. -/
theorem exists_readScriptBody (hread : readScript x = some (reference, rest)) (hu : '>' ∉ u) :
    ∃ a more, readScriptBody (u ++ x) = some (a, more) ∧ more.length < x.length := by
  obtain ⟨written, front, tail, hwritten, hne, hfront, hend, rfl⟩ := exists_of_readScript hread
  have hname : '>' ∉ written := notMem_of_sameLetters isCaseless_close (by decide) hwritten
  obtain ⟨k, hk⟩ : ∃ k, (u ++ (written ++ front)).length = k + 1 :=
    Nat.exists_eq_add_one.mpr (List.length_pos_iff.mpr (by simp [hne]))
  have hform : u ++ (written ++ (front ++ tail)) = (u ++ (written ++ front)) ++ tail := by simp
  have hclean : ∀ c ∈ u ++ (written ++ front), (c != '>') = true := by
    intro c hc
    rw [bne_iff_ne]
    rintro rfl
    simp [hu, hname, hfront] at hc
  have hbody : k < (((u ++ (written ++ front)) ++ tail).takeWhile (· != '>')).length := by
    rw [List.takeWhile_append_of_pos hclean, List.length_append]
    omega
  have hdrop : ((u ++ (written ++ front)) ++ tail).drop (k + 1) = tail := by
    rw [← hk, List.drop_left]
  obtain ⟨a, more, hfound, hlen⟩ := exists_findSome?_tailsFrom leaves_readScriptEnd hbody
    (by rw [hdrop, hend]; rfl)
  rw [hform]
  refine ⟨a, more, hfound, ?_⟩
  have hpos := List.length_pos_iff.mpr hne
  rw [← hk, List.length_append, Nat.add_sub_cancel_left] at hlen
  simp only [List.length_append]
  omega

/-! ### References that are left open -/

/-- An opening quote that nothing closes, though a `>` follows it. -/
def OpenQuote (s : Text) : Prop :=
  ∃ q value, isQuote q ∧ (∀ c ∈ value, isQuote c = false) ∧ '>' ∈ value ∧ s = q :: value

def OpenAttribute (s : Text) : Prop :=
  ∃ named value, SameLetters "src=" named ∧ OpenQuote value ∧ s = named ++ value

/-- A text ends in the opening tag of a script whose reference is left open. -/
def LeavesOpen (s : Text) : Prop :=
  ∃ written front value, SameLetters "<script" written ∧ front ≠ [] ∧ '>' ∉ front ∧
    OpenAttribute value ∧ written ++ (front ++ value) <:+ s

theorem LeavesOpen.of_suffix {s t : Text} (h : LeavesOpen s) (hs : s <:+ t) : LeavesOpen t := by
  obtain ⟨written, front, value, hwritten, hne, hfront, hvalue, hsuffix⟩ := h
  exact ⟨written, front, value, hwritten, hne, hfront, hvalue, hsuffix.trans hs⟩

theorem exists_first_quote {s : Text} (h : ∃ c ∈ s, isQuote c) :
    ∃ value q more, s = value ++ q :: more ∧ (∀ c ∈ value, isQuote c = false) ∧ isQuote q := by
  obtain ⟨q, hq⟩ := Option.isSome_iff_exists.mp (List.find?_isSome.mpr h)
  obtain ⟨hquote, value, more, hs, hvalue⟩ := List.find?_eq_some_iff_append.mp hq
  exact ⟨value, q, more, hs, fun c hc => by simpa using hvalue c hc, hquote⟩

theorem afterFolded?_closing_of_script {s : Text} (hs : (afterFolded? "<script" s).isSome) :
    afterFolded? "</script>" s = none := by
  have hmark : "</script>".toList = '<' :: '/' :: "script>" := rfl
  have hslash : isCaseless '/' := by decide +kernel
  cases hread : afterFolded? "</script>" s with
  | none => rfl
  | some rest =>
      obtain ⟨written, hsame, rfl⟩ := afterFolded?_eq_some_iff.mp hread
      rw [hmark] at hsame
      obtain ⟨c, more, rfl, hc, hmore⟩ := sameLetters_cons_iff.mp hsame
      obtain ⟨d, last, rfl, hd, -⟩ := sameLetters_cons_iff.mp hmore
      rw [sameLetter_iff_of_caseless isCaseless_open] at hc
      rw [sameLetter_iff_of_caseless hslash] at hd
      subst hc hd
      rw [List.cons_append, List.cons_append, afterFolded?_script_of_slash] at hs
      cases hs

/-- The end of an element is read before a script or not at all. -/
theorem afterFolded?_closing_append {s : Text} (hs : (afterFolded? "<script" ('<' :: s)).isSome)
    (u : Text) : afterFolded? "</script>" (u ++ '<' :: s) =
      (afterFolded? "</script>" u).map (· ++ '<' :: s) := by
  by_cases hu : u = []
  · rw [hu, List.nil_append, afterFolded?_closing_of_script hs]
    rfl
  · exact afterFolded?_append_open (by decide) hu s

theorem readScriptValue_none {q : Char} (h : isQuote q = false) (s : Text) :
    readScriptValue (q :: s) = none := by
  rw [readScriptValue, readQuotedValue, h]
  rfl

theorem readScriptValue_empty {q q' : Char} (h : isQuote q') (s : Text) :
    readScriptValue (q :: q' :: s) = none := by
  rw [readScriptValue, readQuotedValue]
  simp [h]

section Closed

variable {q q' : Char} {value more : Text}

/-- An element whose opening tag ends before the script is read before the script or not at all. -/
theorem seenAlike_closed_inside (hread : readScript x = some (reference, rest)) (hq : isQuote q)
    (hne : value ≠ []) (hvalue : ∀ c ∈ value, isQuote c = false) (hq' : isQuote q')
    (hclose : '>' ∈ more) (z : Text) :
    SeenAlike readScriptValue (q :: (value ++ q' :: more)) x ("<script>\n" ++ z) := by
  obtain ⟨left, inner, rfl, hleft⟩ := List.eq_append_cons_of_mem hclose
  have hinside {s : Text} (hs : (afterFolded? "<script" ('<' :: s)).isSome) :
      readScriptValue (q :: (value ++ q' :: (left ++ '>' :: inner)) ++ '<' :: s) =
        ((afterFolded? "</script>" inner).map fun rest => (value, rest)).map
          fun m => (m.1, m.2 ++ '<' :: s) := by
    have hform : q :: (value ++ q' :: (left ++ '>' :: inner)) ++ '<' :: s =
        q :: (value ++ q' :: (left ++ '>' :: (inner ++ '<' :: s))) := by simp
    rw [hform, readScriptValue_close hq hne hvalue hq' hleft, afterFolded?_closing_append hs,
      Option.map_map, Option.map_map]
    rfl
  obtain ⟨s, rfl⟩ := head_of_read opensWith_readScript hread
  obtain ⟨written, front, tail, hwritten, -, -, -, hx⟩ := exists_of_readScript hread
  have hscript : afterFolded? "<script" ('<' :: s) = some (front ++ tail) :=
    afterFolded?_eq_some_iff.mpr ⟨written, hwritten, hx⟩
  refine SeenAlike.of_map (hinside (Option.isSome_of_eq_some hscript)) (hinside ?_)
  exact Option.isSome_of_eq_some (afterFolded?_append "<script" (">\n" ++ z))

/-- An element whose opening tag is still open before the script would have to end in the opening
tag of the block. -/
theorem seenAlike_closed_beyond (hread : readScript x = some (reference, rest)) (hq : isQuote q)
    (hne : value ≠ []) (hvalue : ∀ c ∈ value, isQuote c = false) (hq' : isQuote q')
    (hclose : '>' ∉ more) (z : Text) :
    SeenAlike readScriptValue (q :: (value ++ q' :: more)) x ("<script>\n" ++ z) := by
  obtain ⟨written, front, tail, -, -, -, hend, hx⟩ := exists_of_readScript hread
  obtain ⟨_, _, _, left, closing, -, -, -, -, -, -, -, rfl⟩ := readScriptEnd_eq_some_iff.mp hend
  have hmem : '>' ∈ x := by
    rw [hx]
    simp
  obtain ⟨opening, closed, hcut, hopening⟩ := List.eq_append_cons_of_mem hmem
  refine SeenAlike.of_beyond (fun a last hlast => ?_) (fun _ => ?_)
  · have hform : q :: (value ++ q' :: more) ++ x =
        q :: (value ++ q' :: ((more ++ opening) ++ '>' :: closed)) := by rw [hcut]; simp
    rw [hform, readScriptValue_close hq hne hvalue hq' (by simp [hclose, hopening])] at hlast
    obtain ⟨other, hother, heq⟩ := Option.map_eq_some_iff.mp hlast
    cases heq
    have hlen := (suffix_of_afterFolded? hother).length_le
    rw [hcut, List.length_append, List.length_cons]
    omega
  · have hblock : "<script>\n".toList ++ z = "<script" ++ '>' :: ('\n' :: z) := rfl
    have hform : q :: (value ++ q' :: more) ++ ("<script>\n" ++ z) =
        q :: (value ++ q' :: ((more ++ "<script") ++ '>' :: ('\n' :: z))) := by
      rw [hblock]
      simp
    have hline : afterFolded? "</script>" ('\n' :: z) = none := afterFolded?_open (by simp)
    rw [hform, readScriptValue_close hq hne hvalue hq' (by simp [hclose]), hline]
    rfl

end Closed

/-- Where an open reference stands before a script whose own reference holds no `>`, the open
reference is closed by a quote of the script, and the element ends with the script. -/
theorem seenAlike_open {q : Char} {value : Text} (hread : readScript x = some (reference, rest))
    (hq : isQuote q) (hvalue : ∀ c ∈ value, isQuote c = false) (hne : value ≠ [])
    (hgt : '>' ∉ reference) (y : Text) : SeenAlike readScriptValue (q :: value) x y := by
  obtain ⟨written, front, tail, hwritten, -, hfront, hend, rfl⟩ := exists_of_readScript hread
  obtain ⟨named, q₁, q₂, left, closing, hnamed, hq₁, -, -, hq₂, hleft, hclosing, rfl⟩ :=
    readScriptEnd_eq_some_iff.mp hend
  have hname : '>' ∉ written := notMem_of_sameLetters isCaseless_close (by decide) hwritten
  have hattr : '>' ∉ named := notMem_of_sameLetters isCaseless_close (by decide) hnamed
  have hquote (c : Char) (hc : isQuote c) : '>' ≠ c := by
    rintro rfl
    exact absurd hc (by decide)
  have hclean : '>' ∉ written ++ (front ++ (named ++ q₁ :: (reference ++ q₂ :: left))) := by
    simp [hname, hfront, hattr, hgt, hleft, hquote q₁ hq₁, hquote q₂ hq₂]
  have hsome : ∃ c ∈ written ++ (front ++ (named ++ q₁ :: (reference ++ q₂ :: left))), isQuote c :=
    ⟨q₁, by simp, hq₁⟩
  obtain ⟨inside, q₀, more, htag, hinside, hq₀⟩ := exists_first_quote hsome
  have hform : q :: value ++ (written ++ (front ++ (named ++ q₁ :: (reference ++
      q₂ :: (left ++ '>' :: (closing ++ rest)))))) =
        q :: ((value ++ inside) ++ q₀ :: (more ++ '>' :: (closing ++ rest))) := by
    have happend := congrArg (fun t => q :: value ++ t ++ '>' :: (closing ++ rest)) htag
    simpa using happend
  rw [htag] at hclean
  have hmore : '>' ∉ more := fun h => hclean (by simp [h])
  have hreads : readScriptValue (q :: ((value ++ inside) ++
      q₀ :: (more ++ '>' :: (closing ++ rest)))) = some (value ++ inside, rest) := by
    rw [readScriptValue_close hq (by simp [hne]) ?_ hq₀ hmore,
      afterFolded?_eq_some_iff.mpr ⟨closing, hclosing, rfl⟩]
    · rfl
    · intro c hc
      rcases List.mem_append.mp hc with hc | hc
      · exact hvalue c hc
      · exact hinside c hc
  refine SeenAlike.of_short (hform ▸ hreads) ?_
  simp only [List.length_append, List.length_cons]
  omega

theorem seenAlike_readScriptValue (hread : readScript x = some (reference, rest))
    (hclose : '>' ∈ u) (hopen : '>' ∈ reference → ¬OpenQuote u) (z : Text) :
    SeenAlike readScriptValue u x ("<script>\n" ++ z) := by
  cases u with
  | nil => cases hclose
  | cons q s =>
      cases hq : isQuote q with
      | false =>
          have hnone := readScriptValue_none hq
          exact @SeenAlike.of_map _ _ _ _ _ none (hnone _) (hnone _)
      | true =>
          have hs : '>' ∈ s := by
            rcases List.mem_cons.mp hclose with rfl | hs
            · cases hq
            · exact hs
          by_cases hclosed : ∃ c ∈ s, isQuote c
          · obtain ⟨value, q', more, rfl, hvalue, hq'⟩ := exists_first_quote hclosed
            by_cases hne : value = []
            · subst hne
              have hnone := @readScriptValue_empty q q' hq'
              exact @SeenAlike.of_map _ _ _ _ _ none (hnone _) (hnone _)
            · by_cases hgt : '>' ∈ more
              · exact seenAlike_closed_inside hread hq hne hvalue hq' hgt z
              · exact seenAlike_closed_beyond hread hq hne hvalue hq' hgt z
          · have hvalue : ∀ c ∈ s, isQuote c = false := by simpa using hclosed
            refine seenAlike_open hread hq hvalue (List.ne_nil_of_mem hs) (fun hgt => ?_) _
            exact hopen hgt ⟨q, s, hq, hvalue, hs, rfl⟩

theorem seenAlike_readScriptEnd (hread : readScript x = some (reference, rest))
    (hclose : '>' ∈ u) (hopen : '>' ∈ reference → ¬OpenAttribute u) (z : Text) :
    SeenAlike readScriptEnd u x ("<script>\n" ++ z) := by
  obtain ⟨s, hx⟩ := head_of_read opensWith_readScript hread
  have hform : "<script>\n".toList ++ z = '<' :: ("script>\n" ++ z) := rfl
  rw [readScriptEnd_eq]
  refine SeenAlike.after (hx ▸ afterFolded?_append_cons isCaseless_open (by decide) u s)
    (hform ▸ afterFolded?_append_cons isCaseless_open (by decide) u _) fun value hvalue => ?_
  obtain ⟨named, hnamed, rfl⟩ := afterFolded?_eq_some_iff.mp hvalue
  have hname : '>' ∉ named := notMem_of_sameLetters isCaseless_close (by decide) hnamed
  refine seenAlike_readScriptValue hread ?_ (fun hgt hquote => ?_) z
  · exact (List.mem_append.mp hclose).resolve_left hname
  · exact hopen hgt ⟨named, value, hnamed, hquote, rfl⟩

theorem seenAlike_readScriptBody (hread : readScript x = some (reference, rest))
    (hopen : '>' ∈ reference → ∀ front value, front ≠ [] → '>' ∉ front → u = front ++ value →
      ¬OpenAttribute value) (z : Text) :
    SeenAlike readScriptBody u x ("<script>\n" ++ z) := by
  by_cases hclose : '>' ∈ u
  · obtain ⟨body, more, rfl, hbody⟩ := List.eq_append_cons_of_mem hclose
    rw [SeenAlike, readScriptBody_close hbody, readScriptBody_close hbody]
    refine seenAlike_findSome? fun tail htail => ?_
    obtain ⟨k, hk, rfl⟩ := exists_of_mem_tailsFrom htail
    have hsplit :
        body ++ '>' :: more = body.take (k + 1) ++ (body.drop (k + 1) ++ '>' :: more) := by
      rw [← List.append_assoc, List.take_append_drop]
    have htail : (body ++ '>' :: more).drop (k + 1) = body.drop (k + 1) ++ '>' :: more :=
      List.drop_append_of_le_length hk
    rw [htail]
    refine seenAlike_readScriptEnd hread (by simp) (fun hgt => ?_) z
    refine hopen hgt _ _ ?_ (fun hmem => hbody (List.mem_of_mem_take hmem)) hsplit
    rw [← List.length_pos_iff, List.length_take]
    omega
  · obtain ⟨a, more, hbody, hlen⟩ := exists_readScriptBody hread hclose
    exact .of_short hbody hlen

theorem seenAlike_readScript (hread : readScript x = some (reference, rest)) (hv : v ≠ [])
    (hopen : '>' ∈ reference → ¬LeavesOpen v) (z : Text) :
    SeenAlike readScript v x ("<script>\n" ++ z) := by
  have hmark : "<script".toList = '<' :: "script" := rfl
  obtain ⟨s, hx⟩ := head_of_read opensWith_readScript hread
  have hform : "<script>\n".toList ++ z = '<' :: ("script>\n" ++ z) := rfl
  rw [readScript_eq, hmark]
  refine SeenAlike.after (hx ▸ afterFolded?_append_open (by decide) hv s)
    (hform ▸ afterFolded?_append_open (by decide) hv _) fun u hu => ?_
  rw [← hmark] at hu
  obtain ⟨written, hwritten, rfl⟩ := afterFolded?_eq_some_iff.mp hu
  refine seenAlike_readScriptBody hread (fun hgt front value hne hfront hsplit hvalue => ?_) z
  rw [hsplit] at hopen
  exact hopen hgt ⟨written, front, value, hwritten, hne, hfront, hvalue, List.suffix_refl _⟩

end Asset

end StaticSite
