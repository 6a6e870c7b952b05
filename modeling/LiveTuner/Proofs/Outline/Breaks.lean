import LiveTuner.Proofs.EditorTree.Lasting
import LiveTuner.Proofs.Outline.Places

/-!
# What breaks a line of the outline

A line of the outline is a line of the text as long as nothing in it breaks it. Titles, labels,
options and the complaints of placeholders are put into lines as they are. The node may have put
line breaks into the first three; a complaint quotes a name, and has a line break if the name has
one. All else in a line is a number, written data or a quoted text, in which there is none.

The number beside a slider is not written along with the line: it is kept in the slider, which has
to show its position for that.

## Main definitions

* `Entry.texts` — the texts that are put into a line as they are
* `Entry.ShowsPositions`, `Editor.ShowsPositions` — sliders show their positions

## Main results

* `Entry.staysOnLine_body_iff` — what breaks a line
* `staysOnLine_unresolvableMessage_iff` — what breaks a complaint
* `EditorTree.outline_lists_places` — the outline is the lines of all places, and has as many lines
  as there are places unless a text that is shown breaks its line
-/

namespace LiveTuner

/-! ### Texts in a line -/

/-- The texts that a view puts into its line as they are. -/
def View.texts (v : View) : List String :=
  match v.widget with
  | .accordion title _ _ => [title]
  | .select options _ => v.label.toList ++ options
  | .placeholder reason => v.label.toList ++ [reason]
  | .empty | .slider _ | .checkbox _ | .textInput _ => v.label.toList

/-- The texts that an entry puts into its line as they are. -/
def Entry.texts : Entry → List String
  | editor _ view => view.texts
  | missing _ | component _ _ => []

/-- The number beside the slider is the readout of its position. -/
def Slider.ShowsPosition (s : Slider) : Prop := s.readout = LiveTuner.readout s.value

/-- The sliders of the widget show their positions. -/
def Widget.ShowsPositions : Widget → Prop
  | .slider s => s.ShowsPosition
  | .accordion _ _ panel => ∀ s, .slider s ∈ panel → s.ShowsPosition
  | .empty | .checkbox _ | .select _ _ | .textInput _ | .placeholder _ => True

/-- The sliders of the entry show their positions. -/
def Entry.ShowsPositions : Entry → Prop
  | editor _ view => view.widget.ShowsPositions
  | missing _ => True
  | component _ s => s.ShowsPosition

theorem Slider.showsPosition_ofScalar (s : Scalar) : (Slider.ofScalar s).ShowsPosition := by
  simp only [ShowsPosition, ofScalar]

theorem Slider.showsPosition_moveTo (x : Binary64) (s : Slider) : (s.moveTo x).ShowsPosition := by
  simp only [ShowsPosition, moveTo]

theorem Slider.ShowsPosition.staysOnLine_line {s : Slider} (h : s.ShowsPosition) :
    StaysOnLine s.line := by
  rw [line, h]
  simp only [staysOnLine_append, toString_text, staysOnLine_readout]
  split <;> decide

theorem staysOnLine_optionTexts_iff (selected : Option Nat) (index : Nat) (options : List String) :
    (∀ s ∈ optionTexts selected index options, StaysOnLine s) ↔ ∀ s ∈ options, StaysOnLine s := by
  induction options generalizing index with
  | nil => simp [optionTexts]
  | cons option rest ih =>
    have hoption : StaysOnLine (if selected = some index then s!"[{option}]" else option) ↔
        StaysOnLine option := by
      split
      · simp [show StaysOnLine "[" by decide, show StaysOnLine "]" by decide]
      · rfl
    rw [optionTexts, List.forall_mem_cons, List.forall_mem_cons, ih, hoption]

theorem staysOnLine_labelled_iff (label : Option String) {rest : String} :
    StaysOnLine ((match label with
      | some label => label ++ ": "
      | none => "") ++ rest) ↔ (∀ shown ∈ label.toList, StaysOnLine shown) ∧ StaysOnLine rest := by
  cases label with
  | none => simp
  | some label => simp [show StaysOnLine ": " by decide]

/-- A line breaks where a text breaks that is put into it as it is. -/
theorem View.staysOnLine_line_iff {v : View} (h : v.widget.ShowsPositions) :
    StaysOnLine v.line ↔ ∀ shown ∈ v.texts, StaysOnLine shown := by
  obtain ⟨label, widget⟩ := v
  cases widget with
  | empty => exact (staysOnLine_labelled_iff label).trans (and_iff_left (by decide))
  | slider s =>
    have hs : s.ShowsPosition := h
    exact (staysOnLine_labelled_iff label).trans (and_iff_left hs.staysOnLine_line)
  | checkbox checked =>
    have hmark : StaysOnLine (if checked then "[x]" else "[ ]") := by cases checked <;> decide
    exact (staysOnLine_labelled_iff label).trans (and_iff_left hmark)
  | select options selected =>
    refine (staysOnLine_labelled_iff label).trans ?_
    rw [staysOnLine_intercalate (by decide), staysOnLine_optionTexts_iff, View.texts,
      List.forall_mem_append]
  | textInput value =>
    exact (staysOnLine_labelled_iff label).trans (and_iff_left (staysOnLine_quoted value))
  | accordion title expanded panel =>
    have harrow : StaysOnLine (if expanded then "v" else ">") := by cases expanded <;> decide
    simp only [View.line, View.texts, List.forall_mem_singleton]
    split
    · next htitle => simp [harrow, htitle, show StaysOnLine "" by decide]
    · simp [harrow, show StaysOnLine " " by decide]
  | placeholder reason =>
    refine (staysOnLine_labelled_iff label).trans ?_
    have hreason : StaysOnLine s!"<unresolved: {reason}>" ↔ StaysOnLine reason := by
      simp [show StaysOnLine "<unresolved: " by decide +kernel, show StaysOnLine ">" by decide]
    rw [hreason, View.texts, List.forall_mem_append, List.forall_mem_singleton]

theorem Entry.staysOnLine_body_iff {entry : Entry} (h : entry.ShowsPositions) :
    StaysOnLine entry.body ↔ ∀ shown ∈ entry.texts, StaysOnLine shown := by
  cases entry with
  | editor id view =>
    simp [texts, View.staysOnLine_line_iff h, staysOnLine_idText,
      show StaysOnLine "  (" by decide, show StaysOnLine ")" by decide]
  | missing id =>
    simp [texts, staysOnLine_idText, show StaysOnLine "<missing editor " by decide +kernel,
      show StaysOnLine ">" by decide]
  | component index s =>
    have hindex : StaysOnLine index.repr := staysOnLine_toString_nat index
    simp [texts, h.staysOnLine_line, hindex, show StaysOnLine "[" by decide,
      show StaysOnLine "] " by decide]

/-- A complaint quotes the name as it is, and everything else as written data. -/
theorem staysOnLine_unresolvableMessage_iff (cause : Unresolvable) (definition : Definition) :
    StaysOnLine (unresolvableMessage cause definition) ↔ StaysOnLine definition.name := by
  have hcause : StaysOnLine cause.message := by
    have haround {before after : String} (hbefore : StaysOnLine before)
        (hafter : StaysOnLine after) (v : Json) : StaysOnLine (before ++ v.compact ++ after) := by
      simp [hbefore, hafter, v.staysOnLine_compact]
    have hafter {before : String} (hbefore : StaysOnLine before) (v : Json) :
        StaysOnLine (before ++ v.compact) := by
      simp [hbefore, v.staysOnLine_compact]
    cases cause with
    | option v | chosen v | component v =>
      exact haround (by decide +kernel) (by decide +kernel) v
    | notNumber v | noControl v => exact hafter (by decide +kernel) v
    | maxPerIndex | minPerIndex | maxLength | minLength => decide +kernel
  have hmessage : unresolvableMessage cause definition =
      "Unresolvable parameter kind for " ++ definition.id.text ++ " '" ++ definition.name ++ "' "
        ++ ("(" ++ cause.message ++ "): " ++ definition.text) := rfl
  have hwords : StaysOnLine "Unresolvable parameter kind for " ∧ StaysOnLine " '" ∧
      StaysOnLine "' " ∧ StaysOnLine "(" ∧ StaysOnLine "): " := by decide +kernel
  have hdefinition : StaysOnLine definition.text := definition.toJson.staysOnLine_compact
  rw [hmessage]
  simp [hcause, hwords, hdefinition, staysOnLine_idText]

/-! ### What editors show -/

namespace Editor

variable {e e' : Editor}

theorem showsPosition_movePanel {panel : List PanelItem} {s : Slider} (xs : List Binary64)
    (hpanel : ∀ s, .slider s ∈ panel → s.ShowsPosition) (hs : .slider s ∈ movePanel panel xs) :
    s.ShowsPosition := by
  -- Sliders take the positions in turn; those for which there is none left stay as they are.
  induction panel generalizing xs with
  | nil => cases xs <;> cases hs
  | cons item rest ih =>
    have hrest := fun s hs => hpanel s (List.mem_cons_of_mem item hs)
    cases item with
    | editor id =>
      rw [movePanel, List.mem_cons] at hs
      exact ih xs hrest (hs.resolve_left (by simp))
    | slider s' =>
      cases xs with
      | nil => exact hpanel s hs
      | cons x xs =>
        rw [movePanel, List.mem_cons, PanelItem.slider.injEq] at hs
        obtain rfl | hs := hs
        · exact Slider.showsPosition_moveTo x s'
        · exact ih xs hrest hs

theorem showsPositions_widget (e : Editor) : e.widget.ShowsPositions := by
  rw [widget]
  cases e.kind with
  | group =>
    cases e.param with
    | leaf => trivial
    | group =>
      intro s hs
      simp [groupPanel] at hs
  | vector =>
    dsimp only
    split
    · intro s hs
      obtain ⟨scalar, -, rfl⟩ : ∃ scalar ∈ _, Slider.ofScalar scalar = s := by
        simpa [vectorPanel] using hs
      exact Slider.showsPosition_ofScalar scalar
    · trivial
  | scalar =>
    dsimp only
    split
    · exact Slider.showsPosition_ofScalar _
    · trivial
  | choice | flag | text =>
    dsimp only
    split <;> trivial
  | unresolved => trivial

theorem Stored.showsPositions (h : e.Stored e') (hshows : e.view.widget.ShowsPositions) :
    e'.view.widget.ShowsPositions := by
  cases h with
  -- Only the editors of numbers touch a slider.
  | choice hp val =>
    simp only [storeChoice]
    cases hwidget : e.view.widget <;> simp_all [Widget.ShowsPositions]
  | scalar hp x =>
    simp only [storeScalar]
    cases hwidget : e.view.widget with
    | slider s => exact Slider.showsPosition_moveTo x s
    | accordion => rwa [hwidget] at hshows
    | empty | checkbox | select | textInput | placeholder => trivial
  | @vector _ _ _ xs hp hlength =>
    simp only [storeVector]
    cases hwidget : e.view.widget with
    | accordion title expanded panel =>
      rw [hwidget] at hshows
      exact fun s hs => showsPosition_movePanel xs hshows hs
    | slider => rwa [hwidget] at hshows
    | empty | checkbox | select | textInput | placeholder => trivial
  | flag hp b =>
    simp only [storeFlag]
    cases hwidget : e.view.widget <;> simp_all [Widget.ShowsPositions]
  | text hp s =>
    simp only [storeText]
    cases hwidget : e.view.widget <;> simp_all [Widget.ShowsPositions]

theorem showsPositions_setExpanded (hshows : e.view.widget.ShowsPositions) (expanded : Bool) :
    (e.setExpanded expanded).view.widget.ShowsPositions := by
  simp only [setExpanded]
  cases hwidget : e.view.widget with
  | accordion title _ panel =>
    rw [hwidget] at hshows
    exact hshows
  | slider => rwa [hwidget] at hshows
  | empty | checkbox | select | textInput | placeholder => trivial

/-- The editor fits its id, and its sliders show their positions. -/
structure ShowsPositions (e : Editor) (id : ParamId) : Prop where
  /-- It fits its id. -/
  fits : e.Fits id
  /-- The sliders. -/
  sliders : e.view.widget.ShowsPositions

end Editor

namespace EditorTree

variable {t : EditorTree} {calls : List Call} {spot : Spot}

theorem allows_showsPositions :
    Allows (fun id e => e.ShowsPositions id) (fun _ _ => True) fun _ => True where
  panel _ _ _ _ := ⟨trivial, trivial⟩
  created _ _ _ := ⟨⟨rfl, rfl⟩, Editor.showsPositions_widget _⟩
  bound _ _ _ he hkind := ⟨⟨rfl, he.fits.kind_eq.trans hkind⟩, Editor.showsPositions_widget _⟩

theorem outlasts_showsPositions : Outlasts (fun id e => e.ShowsPositions id) fun _ => True where
  kind_eq _ _ h := h.fits.kind_eq
  patched _ x _ e _ h := by
    refine ⟨h.fits.patchEditor x.param, ?_⟩
    rw [view_patchEditor]
    exact h.sliders
  stored _ _ _ h hstored := ⟨h.fits.store hstored, hstored.showsPositions h.sliders⟩
  toggled _ _ expanded h _ :=
    ⟨⟨h.fits.id_eq, h.fits.kind_eq⟩, Editor.showsPositions_setExpanded h.sliders expanded⟩
  hosted _ _ _ _ _ := trivial

/-- In a tree to which anything has been done, what stands at a place shows its positions. -/
theorem showsPositions_of_standsAt (h : empty.calls calls = some t) (hspot : t.StandsAt spot) :
    spot.entry.ShowsPositions := by
  have hstart : empty.Satisfies (fun id e => e.ShowsPositions id) fun _ _ => True := .clear empty
  have hshows := hstart.calls allows_showsPositions outlasts_showsPositions (fun _ => trivial) h
  obtain ⟨id, -, hgives⟩ := exists_standsAt_iff.mp ⟨spot.place, hspot⟩
  -- A slider that has a line of its own is one of the panel of an editor.
  obtain heq | ⟨index, s, hitem, heq⟩ := hgives
  · rw [heq, entry]
    cases he : t.get? id with
    | none => trivial
    | some e => exact (hshows.editor id e he).sliders
  · rw [heq]
    rw [openItems] at hitem
    cases he : t.get? id with
    | none => simp [he] at hitem
    | some e =>
      have hsliders := (hshows.editor id e he).sliders
      simp only [he, View.openItems] at hitem
      split at hitem
      · next title panel hwidget =>
        rw [hwidget] at hsliders
        exact hsliders s (List.mem_of_getElem? hitem)
      · simp at hitem

theorem staysOnLine_line_iff (h : spot.entry.ShowsPositions) :
    StaysOnLine spot.line ↔ ∀ shown ∈ spot.entry.texts, StaysOnLine shown := by
  rw [Spot.line, Spot.lineFrom, staysOnLine_append, Entry.staysOnLine_body_iff h, indentation]
  simp

/-- The outline after any loads, redefinitions, interactions and pushed values that come to an end
is the lines of all places at which something stands, each followed by a line break, in the order of
the places. What stands somewhere is what the ids give lines to that are reached through open
panels. The outline has as many lines as there are places exactly if no title, label, option or
complaint that is shown has a line break. -/
theorem outline_lists_places (h : empty.calls calls = some t) :
    ∃ (text : String) (spots : List Spot), t.outline = some text ∧
      text = String.join (spots.map fun spot => spot.line ++ "\n") ∧
      spots.Pairwise (·.place < ·.place) ∧
      (∀ spot, spot ∈ spots ↔ t.StandsAt spot) ∧
      (∀ entry, (∃ place, t.StandsAt ⟨place, entry⟩) ↔ ∃ id, t.IsReached id ∧ t.Gives id entry) ∧
      (text.toList.count '\n' = spots.length ↔
        ∀ spot ∈ spots, ∀ shown ∈ spot.entry.texts, StaysOnLine shown) := by
  have hlayered := ((isPaintable_clear empty).calls h).isLayered
  obtain ⟨lines, hlines⟩ := hlayered.exists_outlineLines
  obtain ⟨spots, rfl, hordered, hmem⟩ := lists_outlineLines hlines
  refine ⟨_, spots, by rw [outline, hlines, Option.map_some], ?_, hordered, hmem,
    fun entry => exists_standsAt_iff, ?_⟩
  · rw [List.map_map]
    rfl
  · have hcount := count_join_eq_iff (spots.map (·.line))
    rw [List.length_map, List.forall_mem_map] at hcount
    refine hcount.trans (forall₂_congr fun spot hspot => ?_)
    exact staysOnLine_line_iff (showsPositions_of_standsAt h ((hmem spot).mp hspot))

/-- A group of a choice and a vector, and both panels opened. -/
def openingNoise : List Call :=
  [.load [.group ⟨1⟩ "noise"
    [("hue", .leaf ⟨2⟩ "hue" (.choice ⟨.text "red", [.text "red", .text "blue"]⟩)),
      ("tint", .leaf ⟨3⟩ "tint" (.vector ⟨[.ofInt 1, .ofInt 2], [.ofInt 0, .ofInt 0],
        [.ofInt 9, .ofInt 9], false, none, true⟩))] []],
    .change (.interact ⟨1⟩ .toggle), .change (.interact ⟨3⟩ .toggle)]

/-- Its outline. -/
def openedNoise : String :=
  "v noise  (#1)\n  hue: [red] | blue  (#2)\n  v tint  (#3)\n" ++
    "    [0] 1 [0 .. 9]\n    [1] 2 [0 .. 9]\n"

theorem outline_lists_openingNoise :
    ∃ (t : EditorTree) (spots : List Spot), empty.calls openingNoise = some t ∧
      t.outline = some openedNoise ∧
      String.join (spots.map fun spot => spot.line ++ "\n") = openedNoise ∧
      ∀ spot, spot ∈ spots ↔ t.StandsAt spot := by
  have hrun : (empty.calls openingNoise).map (·.outline) = some (some openedNoise) := by
    decide +kernel
  obtain ⟨t, ht, houtline⟩ := Option.map_eq_some_iff.mp hrun
  obtain ⟨text, spots, htext, hjoin, -, hmem, -, -⟩ := outline_lists_places ht
  obtain rfl : text = openedNoise := Option.some.inj (htext.symm.trans houtline)
  exact ⟨t, spots, ht, houtline, hjoin.symm, hmem⟩

/-- A flag whose name has a line break. -/
def brokenName : List Call := [.load [.leaf ⟨1⟩ "a\nb" (.flag true)]]

/-- There is one place in its outline, and two lines. -/
theorem outline_breaks_brokenName :
    ∃ t, empty.calls brokenName = some t ∧
      (∀ spot, t.StandsAt spot ↔ spot = ⟨[0], .editor ⟨1⟩ ⟨some "a\nb", .checkbox true⟩⟩) ∧
      t.outline = some "a\nb: [x]  (#1)\n" ∧ "a\nb: [x]  (#1)\n".toList.count '\n' = 2 := by
  have hrun : (empty.calls brokenName).map (fun t => (t.roots, (t.get? ⟨1⟩).map (·.view),
      t.outline)) = some ([⟨1⟩], some ⟨some "a\nb", .checkbox true⟩,
        some "a\nb: [x]  (#1)\n") := by decide +kernel
  obtain ⟨t, ht, hshown⟩ := Option.map_eq_some_iff.mp hrun
  obtain ⟨hroots, hrest⟩ := Prod.mk.inj hshown
  obtain ⟨hview, houtline⟩ := Prod.mk.inj hrest
  obtain ⟨e, he, hview⟩ := Option.map_eq_some_iff.mp hview
  refine ⟨t, ht, fun spot => ?_, houtline, by decide +kernel⟩
  have hentry : t.entry ⟨1⟩ = .editor ⟨1⟩ ⟨some "a\nb", .checkbox true⟩ := by
    simp [entry, he, hview]
  have hitems : t.openItems ⟨1⟩ = [] := by simp [openItems, he, hview, View.openItems]
  constructor
  · rintro ⟨index, id, below, hid, hbelow, rfl⟩
    obtain ⟨rfl, rfl⟩ : index = 0 ∧ id = ⟨1⟩ := by
      rw [hroots] at hid
      obtain ⟨hindex, hid⟩ := List.getElem?_eq_some_iff.mp hid
      obtain rfl : index = 0 := Nat.lt_one_iff.mp hindex
      exact ⟨rfl, hid.symm⟩
    obtain rfl | ⟨k, item, _, hitem, -, -⟩ := standsBelow_iff.mp hbelow
    · rw [hentry]
      rfl
    · simp [hitems] at hitem
  · rintro rfl
    exact ⟨0, ⟨1⟩, _, by rw [hroots]; rfl, .here ⟨1⟩, by rw [hentry]; rfl⟩

end EditorTree

end LiveTuner
