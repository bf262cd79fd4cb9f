import StaticSite.Proofs.Markup.Document

/-!
# Changing the texts of a document

A change of texts that works between the marks of tags one by one can be made on a document
instead of on its rendering. Filling holes is such a change, and so is putting a document into the
holes for children.
-/

namespace StaticSite.Markup

open Text

theorem notMem_of_isHoleName {name : Text} (h : IsHoleName name) : '{' ∉ name := by
  intro hmem
  exact absurd (h _ hmem) (by decide)

theorem IsAttribute.isHoleName {style : NameStyle} {a : Text × Text} (h : IsAttribute style a) :
    IsHoleName a.1 := by
  intro c hc
  cases style with
  | plain => exact isHyphenWord_of_isWord (h.inName c hc)
  | hyphenated => exact h.inName c hc

theorem IsAttribute.map_snd {style : NameStyle} {a : Text × Text} (h : IsAttribute style a)
    {value : Text} (hvalue : IsPlain value) : IsAttribute style (a.1, value) :=
  ⟨h.ne_nil, h.inName, hvalue⟩

/-- A change of texts that leaves the marks of tags and what is free of braces as they are. -/
structure RespectsTags (f : Text → Text) : Prop where
  append_cons : ∀ s c t, c ∈ tagMarks → f (s ++ c :: t) = f s ++ c :: f t
  eq_self : ∀ s, '{' ∉ s → f s = s

theorem respectsTags_fill {name : Text} (hname : IsHoleName name) (value : Text) :
    RespectsTags (fill name value) where
  append_cons s _ t hc := fill_append_cons name value (bounds_of_mem_tagMarks hname hc) s t
  eq_self _ hs := fill_eq_self_of_notMem name value hs

namespace RespectsTags

variable {f : Text → Text}

theorem apply_attributes (h : RespectsTags f) (onValue : Text → Text)
    {attributes : List (Text × Text)} (hnames : ∀ a ∈ attributes, '{' ∉ a.1)
    (hvalues : ∀ a ∈ attributes, f a.2 = onValue a.2) (before after : Text)
    (hbefore : '{' ∉ before) (hafter : '{' ∉ after) (t : Text) :
    f (before ++ renderAttributes attributes ++ after ++ '>' :: t) =
      before ++ renderAttributes (attributes.map fun a => (a.1, onValue a.2)) ++ after ++
        '>' :: f t := by
  induction attributes generalizing before with
  | nil =>
      have hnone : '{' ∉ before ++ after := by simp [hbefore, hafter]
      simp only [renderAttributes, List.map_nil, List.flatMap_nil, List.append_nil]
      rw [h.append_cons _ '>' _ (by simp [tagMarks]), h.eq_self _ hnone]
  | cons a attributes ih =>
      have hmark : '"' ∈ tagMarks := by simp [tagMarks]
      have hhead : '{' ∉ before ++ ' ' :: a.1 ++ ['='] := by
        simp [hbefore, hnames a (by simp)]
      have htail := ih (fun b hb => hnames b (by simp [hb])) (fun b hb => hvalues b (by simp [hb]))
        [] (by simp)
      rw [List.nil_append, List.nil_append] at htail
      calc
        f (before ++ renderAttributes (a :: attributes) ++ after ++ '>' :: t) =
            f ((before ++ ' ' :: a.1 ++ ['=']) ++ '"' :: (a.2 ++ '"' ::
              (renderAttributes attributes ++ after ++ '>' :: t))) := by
          simp [renderAttributes]
        _ = (before ++ ' ' :: a.1 ++ ['=']) ++ '"' :: (onValue a.2 ++ '"' ::
              f (renderAttributes attributes ++ after ++ '>' :: t)) := by
          rw [h.append_cons _ _ _ hmark, h.append_cons _ _ _ hmark, h.eq_self _ hhead,
            hvalues a (by simp)]
        _ = _ := by
          rw [htail]
          simp [renderAttributes]

end RespectsTags

namespace Document

theorem render_selfClosing (attributes : List (Text × Text)) (rest : Document) :
    (selfClosing attributes rest).render =
      '<' :: ("Component" ++ renderAttributes attributes ++ " /" ++ '>' :: rest.render) := by
  rw [render]
  unfold renderSelfClosing
  simp

theorem render_around (identifier : Text) (attributes : List (Text × Text))
    (inside rest : Document) :
    (around identifier attributes inside rest).render =
      '<' :: ("Component name=" ++ '"' :: (identifier ++ '"' :: (renderAttributes attributes ++
        '>' :: (inside.render ++ '<' :: ("/Component" ++ '>' :: rest.render))))) := by
  rw [render]
  unfold renderOpening renderClosing
  simp

/-- A document with its stretches of text and its attribute values changed. Text nodes that follow
one another make one stretch, of which `run` is the part already passed. -/
def rebuild (onText : Text → Document → Document) (onValue : Text → Text) :
    Text → Document → Document
  | run, empty => onText run empty
  | run, text s rest => rebuild onText onValue (run ++ s) rest
  | run, selfClosing attributes rest =>
      onText run (selfClosing (attributes.map fun a => (a.1, onValue a.2))
        (rebuild onText onValue [] rest))
  | run, around identifier attributes inside rest =>
      onText run (around identifier (attributes.map fun a => (a.1, onValue a.2))
        (rebuild onText onValue [] inside) (rebuild onText onValue [] rest))

variable {onText : Text → Document → Document} {onValue : Text → Text}

theorem render_rebuild {f : Text → Text} (hf : RespectsTags f)
    (htext : ∀ s rest, (onText s rest).render = f s ++ rest.render) {d : Document}
    (hd : d.WellFormed) (hvalues : ∀ v ∈ d.values, f v = onValue v) (run : Text) :
    (d.rebuild onText onValue run).render = f (run ++ d.render) := by
  induction d generalizing run with
  | empty =>
      rw [rebuild, htext, render]
      simp
  | text s rest ih =>
      rw [rebuild, ih hd.2 hvalues, render, List.append_assoc]
  | selfClosing attributes rest ih =>
      obtain ⟨-, hattributes, hrest⟩ := hd
      have htail := ih hrest (fun v hv => hvalues v (by simp [values, hv])) []
      have htag := hf.apply_attributes onValue
        (fun a ha => notMem_of_isHoleName (hattributes a ha).isHoleName)
        (fun a ha => hvalues a.2 (List.mem_append_left _ (List.mem_map_of_mem ha)))
        "Component" " /" (by simp) (by simp) rest.render
      rw [rebuild, htext, render_selfClosing, render_selfClosing, htail, List.nil_append,
        hf.append_cons _ '<' _ (by simp [tagMarks]), htag]
  | around identifier attributes inside rest ihInside ihRest =>
      obtain ⟨hidentifier, hattributes, hinside, hrest⟩ := hd
      have hleft : '<' ∈ tagMarks := by simp [tagMarks]
      have hright : '>' ∈ tagMarks := by simp [tagMarks]
      have hquote : '"' ∈ tagMarks := by simp [tagMarks]
      have htailInside := ihInside hinside (fun v hv => hvalues v (by simp [values, hv])) []
      have htailRest := ihRest hrest (fun v hv => hvalues v (by simp [values, hv])) []
      have hown : ∀ a ∈ attributes, a.2 ∈ (around identifier attributes inside rest).values :=
        fun a ha => List.mem_append_left _ (List.mem_append_left _ (List.mem_map_of_mem ha))
      have htag := hf.apply_attributes onValue
        (fun a ha => notMem_of_isHoleName (hattributes a ha).isHoleName)
        (fun a ha => hvalues a.2 (hown a ha)) [] [] (by simp) (by simp)
        (inside.render ++ '<' :: ("/Component" ++ '>' :: rest.render))
      simp only [List.nil_append, List.append_nil] at htailInside htailRest htag
      rw [rebuild, htext, render_around, render_around, htailInside, htailRest,
        hf.append_cons run '<' _ hleft, hf.append_cons "Component name=" '"' _ hquote,
        hf.append_cons identifier '"' _ hquote, hf.eq_self "Component name=" (by simp),
        hf.eq_self identifier hidentifier.no_brace.1, htag,
        hf.append_cons inside.render '<' _ hleft, hf.append_cons "/Component" '>' _ hright,
        hf.eq_self "/Component" (by simp)]

theorem wellFormed_rebuild
    (htext : ∀ s rest, isOrdinary s → rest.WellFormed → (onText s rest).WellFormed)
    {d : Document} (hd : d.WellFormed) (hvalues : ∀ v ∈ d.values, IsPlain v → IsPlain (onValue v))
    {run : Text} (hrun : isOrdinary run) : (d.rebuild onText onValue run).WellFormed := by
  induction d generalizing run with
  | empty => exact htext run empty hrun trivial
  | text s rest ih => exact ih hd.2 hvalues (isOrdinary_append hrun hd.1)
  | selfClosing attributes rest ih =>
      obtain ⟨⟨a, ha, hsource⟩, hattributes, hrest⟩ := hd
      refine htext _ _ hrun ⟨⟨_, List.mem_map_of_mem ha, hsource⟩, ?_, ?_⟩
      · intro b hb
        obtain ⟨a, ha, rfl⟩ := List.mem_map.mp hb
        have hmem : a.2 ∈ (selfClosing attributes rest).values :=
          List.mem_append_left _ (List.mem_map_of_mem ha)
        exact (hattributes a ha).map_snd (hvalues _ hmem (hattributes a ha).plain)
      · exact ih hrest (fun v hv => hvalues v (by simp [values, hv])) rfl
  | around identifier attributes inside rest ihInside ihRest =>
      obtain ⟨hidentifier, hattributes, hinside, hrest⟩ := hd
      refine htext _ _ hrun ⟨hidentifier, ?_, ?_, ?_⟩
      · intro b hb
        obtain ⟨a, ha, rfl⟩ := List.mem_map.mp hb
        have hmem : a.2 ∈ (around identifier attributes inside rest).values :=
          List.mem_append_left _ (List.mem_append_left _ (List.mem_map_of_mem ha))
        exact (hattributes a ha).map_snd (hvalues _ hmem (hattributes a ha).plain)
      · exact ihInside hinside (fun v hv => hvalues v (by simp [values, hv])) rfl
      · exact ihRest hrest (fun v hv => hvalues v (by simp [values, hv])) rfl

/-! ## Filling -/

def fill (name value : Text) (d : Document) : Document :=
  d.rebuild (fun s rest => text (Markup.fill name value s) rest) (Markup.fill name value) []

theorem render_fill {name : Text} (hname : IsHoleName name) (value : Text) {d : Document}
    (hd : d.WellFormed) : (d.fill name value).render = Markup.fill name value d.render :=
  render_rebuild (respectsTags_fill hname value) (fun _ _ => rfl) hd (fun _ _ => rfl) []

theorem wellFormed_fill (name : Text) {value : Text} (hvalue : IsPlain value) {d : Document}
    (hd : d.WellFormed) : (d.fill name value).WellFormed := by
  refine wellFormed_rebuild ?_ hd ?_ rfl
  · exact fun s rest hs hrest => ⟨isOrdinary_fill hvalue hs, hrest⟩
  · intro v _ hv c hc
    rcases mem_fill name value hc with hc | hc
    · exact hv c hc
    · exact hvalue c hc

/-! ## Children -/

/-- The stretch of text `run` and then the pieces of a text with a document in place of each hole.
-/
def graftPieces (kids rest : Document) : Text → List (Piece Unit) → Document
  | run, [] => text run rest
  | run, .gap c :: ps => graftPieces kids rest (run ++ [c]) ps
  | run, .hit _ _ :: ps => text run (kids.append (graftPieces kids rest [] ps))

/-- A text with a document in place of each hole for children. -/
def graftText (kids : Document) (s : Text) (rest : Document) : Document :=
  graftPieces kids rest [] (split (readHole childrenName) s)

/-- A document with another one in every hole for children. -/
def graft (d kids : Document) : Document := d.rebuild (graftText kids) id []

theorem render_graftPieces (kids rest : Document) (run : Text) (ps : List (Piece Unit)) :
    (graftPieces kids rest run ps).render =
      run ++ ps.flatMap (Piece.replaced fun _ _ => kids.render) ++ rest.render := by
  induction ps generalizing run with
  | nil => simp [graftPieces, render]
  | cons p ps ih =>
      cases p with
      | gap c =>
          rw [graftPieces, ih]
          simp [Piece.replaced]
      | hit a source =>
          rw [graftPieces, render, render_append, ih]
          simp [Piece.replaced]

theorem render_graft {d : Document} (kids : Document) (hd : d.WellFormed)
    (hvalues : ∀ v ∈ d.values, readFirst? (readHole childrenName) v = none) :
    (d.graft kids).render = Markup.fill childrenName kids.render d.render := by
  have hname : IsHoleName childrenName := by decide
  refine render_rebuild (respectsTags_fill hname kids.render) ?_ hd ?_ []
  · intro s rest
    rw [graftText, render_graftPieces]
    rfl
  · exact fun v hv => replaceAll_eq_self _ (hvalues v hv)

theorem wellFormed_graftPieces {kids : Document} (hkids : kids.WellFormed) {rest : Document}
    (hrest : rest.WellFormed) (run : Text) {s : Text} (h : isOrdinary (run ++ s)) :
    (graftPieces kids rest run (split (readHole childrenName) s)).WellFormed := by
  induction s using split_induction (consumes_readHole childrenName) generalizing run with
  | nil => exact ⟨by simpa using h, hrest⟩
  | gap c s hs ih =>
      rw [split_cons_of_none hs, graftPieces]
      exact ih (run ++ [c]) (by simpa using h)
  | hit a source more hne hs ih =>
      rw [split_of_some hne hs, graftPieces]
      obtain ⟨t, ht⟩ := cons_of_readHole hs
      have hmore : isOrdinary more := by
        rw [← List.append_assoc] at h
        exact isOrdinary_of_append h
      rw [ht] at h
      exact ⟨isOrdinary_of_append_brace h, wellFormed_append hkids (ih [] hmore)⟩

theorem wellFormed_graft {d kids : Document} (hd : d.WellFormed) (hkids : kids.WellFormed) :
    (d.graft kids).WellFormed :=
  wellFormed_rebuild (fun _ _ hs hrest => wellFormed_graftPieces hkids hrest [] hs) hd
    (fun _ _ hv => hv) rfl

end Document

end StaticSite.Markup
