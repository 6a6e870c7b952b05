import LiveTuner.Outline
import LiveTuner.Proofs.EditorTree.Layered
import LiveTuner.Proofs.Text.Lines

/-!
# What stands where in the outline

A place in the outline is given by the indices on the way to it: that of the topmost editor, then in
each open panel that of the item that leads on. What stands there is an editor, or a slider of the
panel, or nothing but an id whose editor is gone. There is one line for each place, in the order of
the places, indented by two blanks for each panel above it; an id that is met on two ways has two.

## Main definitions

* `Entry`, `Spot` — what a line is about, and where
* `EditorTree.StandsBelow`, `EditorTree.StandsAt` — what stands below an id, and below the topmost
* `EditorTree.IsReached`, `EditorTree.Gives` — the ids that open panels lead to, and what they show
* `Lists` — lines are those of all places at which something stands

## Main results

* `EditorTree.lists_linesWithin`, `EditorTree.lists_outlineLines` — the lines of an editor, and
  those of the outline
* `EditorTree.exists_standsAt_iff` — what stands at some place
-/

namespace LiveTuner

open Relation

variable {level index : Nat} {id : ParamId}

/-! ### What a line is about -/

/-- What a line of the outline is about. -/
inductive Entry where
  /-- An editor, and what it shows. -/
  | editor (id : ParamId) (view : View)
  /-- An id in a panel without an editor. -/
  | missing (id : ParamId)
  /-- A slider of a panel, at its index there. -/
  | component (index : Nat) (s : Slider)
deriving DecidableEq, Repr

/-- The line of an entry, without the blanks at its start. -/
def Entry.body : Entry → String
  | editor id view => s!"{view.line}  ({id.text})"
  | missing id => s!"<missing editor {id.text}>"
  | component index s => s!"[{index}] {s.line}"

@[simp] theorem Entry.body_editor (view : View) :
    (editor id view).body = view.line ++ "  (" ++ id.text ++ ")" := rfl

@[simp] theorem Entry.body_missing : (missing id).body = "<missing editor " ++ id.text ++ ">" := rfl

@[simp] theorem Entry.body_component (s : Slider) :
    (component index s).body = "[" ++ toString index ++ "] " ++ s.line := rfl

/-- The items under the line of a view: those of its panel, if that is open. -/
def View.openItems (v : View) : List PanelItem :=
  match v.widget with
  | .accordion _ true panel => panel
  | _ => []

/-- An entry at a place. -/
structure Spot where
  /-- The indices on the way to the entry. -/
  place : List Nat
  /-- What stands there. -/
  entry : Entry
deriving DecidableEq, Repr

namespace Spot

/-- The spot as it is met by way of an item further up. -/
def under (index : Nat) (s : Spot) : Spot := ⟨index :: s.place, s.entry⟩

/-- The line of a spot on a way that starts at items of the given level. -/
def lineFrom (level : Nat) (s : Spot) : String :=
  indentation (level + s.place.length - 1) ++ s.entry.body

/-- The line of a spot on a way that starts at the topmost editors. -/
def line (s : Spot) : String := s.lineFrom 0

theorem lineFrom_under (index level : Nat) (s : Spot) :
    (s.under index).lineFrom level = s.lineFrom (level + 1) := by
  simp only [lineFrom, under, List.length_cons]
  congr 2
  omega

end Spot

/-! ### Lists of lines -/

/-- The lines are those of all spots of which `stands` holds, in the order of their places. -/
def Lists (level : Nat) (stands : Spot → Prop) (lines : List String) : Prop :=
  ∃ spots : List Spot, lines = spots.map (·.lineFrom level) ∧
    spots.Pairwise (·.place < ·.place) ∧ ∀ spot, spot ∈ spots ↔ stands spot

namespace Lists

variable {stands stands' : Spot → Prop} {lines lines' : List String}

theorem nil (h : ∀ spot, ¬ stands spot) : Lists level stands [] :=
  ⟨[], rfl, .nil, fun spot => by simp [h spot]⟩

theorem singleton (spot : Spot) : Lists level (· = spot) [spot.lineFrom level] :=
  ⟨[spot], rfl, List.pairwise_singleton _ _, fun _ => List.mem_singleton⟩

theorem congr (h : Lists level stands lines) (heq : ∀ spot, stands spot ↔ stands' spot) :
    Lists level stands' lines := by
  obtain ⟨spots, hlines, hordered, hmem⟩ := h
  exact ⟨spots, hlines, hordered, fun spot => (hmem spot).trans (heq spot)⟩

/-- The lines below an item are lines of the panel that the item is in. -/
theorem under (h : Lists (level + 1) stands lines) (index : Nat) :
    Lists level (fun spot => ∃ below, stands below ∧ spot = below.under index) lines := by
  obtain ⟨spots, rfl, hordered, hmem⟩ := h
  refine ⟨spots.map (·.under index), ?_, ?_, fun spot => ?_⟩
  · simp [Spot.lineFrom_under]
  · rw [List.pairwise_map]
    exact hordered.imp fun hlt => List.cons_lt_cons_self.mpr hlt
  · simp only [List.mem_map, hmem]
    exact exists_congr fun below => and_congr_right fun _ => eq_comm

/-- Lines of earlier places, and then lines of later ones. -/
theorem append (h : Lists level stands lines) (h' : Lists level stands' lines')
    (hlt : ∀ spot spot', stands spot → stands' spot' → spot.place < spot'.place) :
    Lists level (fun spot => stands spot ∨ stands' spot) (lines ++ lines') := by
  obtain ⟨spots, rfl, hordered, hmem⟩ := h
  obtain ⟨spots', rfl, hordered', hmem'⟩ := h'
  refine ⟨spots ++ spots', List.map_append.symm, ?_, fun spot => ?_⟩
  · rw [List.pairwise_append]
    refine ⟨hordered, hordered', fun spot hspot spot' hspot' => ?_⟩
    exact hlt spot spot' ((hmem spot).mp hspot) ((hmem' spot').mp hspot')
  · rw [List.mem_append, hmem, hmem']

end Lists

/-! ### What stands where -/

namespace EditorTree

variable {t : EditorTree} {lines : ParamId → Walk (List String)} {panel : List PanelItem}
  {item : PanelItem} {below : List String} {bound : Nat}

/-- The entry of an id. -/
def entry (t : EditorTree) (id : ParamId) : Entry :=
  match t.get? id with
  | some e => .editor id e.view
  | none => .missing id

/-- The items below an id. -/
def openItems (t : EditorTree) (id : ParamId) : List PanelItem :=
  match t.get? id with
  | some e => e.view.openItems
  | none => []

/-- What stands at an id and below it. -/
inductive StandsBelow (t : EditorTree) : ParamId → Spot → Prop where
  /-- The entry of the id. -/
  | here (id : ParamId) : StandsBelow t id ⟨[], t.entry id⟩
  /-- A slider of the open panel. -/
  | component {id : ParamId} {index : Nat} {s : Slider}
    (hitem : (t.openItems id)[index]? = some (.slider s)) :
    StandsBelow t id ⟨[index], .component index s⟩
  /-- What stands below an id that the open panel shows. -/
  | within {id c : ParamId} {index : Nat} {spot : Spot}
    (hitem : (t.openItems id)[index]? = some (.editor c)) (hspot : StandsBelow t c spot) :
    StandsBelow t id (spot.under index)

/-- What stands below the topmost ids. -/
def StandsAt (t : EditorTree) (spot : Spot) : Prop :=
  ∃ index id below, t.roots[index]? = some id ∧ t.StandsBelow id below ∧ spot = below.under index

/-- What stands at an item of a panel, which has the given index there. -/
def StandsAtItem (t : EditorTree) (index : Nat) : PanelItem → Spot → Prop
  | .editor id, spot => t.StandsBelow id spot
  | .slider s, spot => spot = ⟨[], .component index s⟩

/-- What stands at the items of a panel, the first of which has the given index. -/
def StandsIn (t : EditorTree) (index : Nat) (panel : List PanelItem) (spot : Spot) : Prop :=
  ∃ k item below, panel[k]? = some item ∧ t.StandsAtItem (index + k) item below ∧
    spot = below.under (index + k)

theorem standsIn_cons {spot : Spot} :
    t.StandsIn index (item :: panel) spot ↔
      (∃ below, t.StandsAtItem index item below ∧ spot = below.under index) ∨
        t.StandsIn (index + 1) panel spot := by
  constructor
  · rintro ⟨_ | k, other, below, hitem, hstands, rfl⟩
    · obtain rfl := Option.some.inj hitem
      exact Or.inl ⟨below, hstands, rfl⟩
    · have hindex : index + (k + 1) = index + 1 + k := by omega
      exact Or.inr ⟨k, other, below, hitem, hindex ▸ hstands, hindex ▸ rfl⟩
  · rintro (⟨below, hstands, rfl⟩ | ⟨k, other, below, hitem, hstands, rfl⟩)
    · exact ⟨0, item, below, rfl, hstands, rfl⟩
    · have hindex : index + 1 + k = index + (k + 1) := by omega
      exact ⟨k + 1, other, below, hitem, hindex ▸ hstands, hindex ▸ rfl⟩

theorem standsBelow_iff {spot : Spot} :
    t.StandsBelow id spot ↔ spot = ⟨[], t.entry id⟩ ∨ t.StandsIn 0 (t.openItems id) spot := by
  constructor
  · rintro (_ | hitem | ⟨hitem, hspot⟩)
    · exact Or.inl rfl
    · exact Or.inr ⟨_, _, _, hitem, rfl, by simp [Spot.under]⟩
    · exact Or.inr ⟨_, _, _, hitem, hspot, by simp⟩
  · rintro (rfl | ⟨k, item, below, hitem, hstands, rfl⟩)
    · exact .here id
    · rw [Nat.zero_add] at hstands ⊢
      cases item with
      | editor c => exact .within hitem hstands
      | slider s =>
        obtain rfl := hstands
        exact .component hitem

/-! ### Lines -/

/-- The lines of a panel are those of what stands at its items. -/
theorem lists_panelLines
    (hlines : ∀ c l, lines c = some l → Lists (level + 1) (t.StandsBelow c) l)
    (h : panelLines lines level index panel = some below) :
    Lists level (t.StandsIn index panel) below := by
  induction panel generalizing index below with
  | nil =>
    obtain rfl := Option.some.inj h
    exact .nil fun spot ⟨_, _, _, hitem, _⟩ => by simp at hitem
  | cons item rest ih =>
    -- An item has its lines in front of those of the others, whether it is an editor or a slider.
    have hstep : ∃ here later, Lists (level + 1) (t.StandsAtItem index item) here ∧
        panelLines lines level (index + 1) rest = some later ∧ here ++ later = below := by
      cases item with
      | editor c =>
        obtain ⟨here, hhere, h⟩ := Option.bind_eq_some_iff.mp h
        obtain ⟨later, hlater, h⟩ := Option.bind_eq_some_iff.mp h
        exact ⟨here, later, hlines c here hhere, hlater, Option.some.inj h⟩
      | slider s =>
        obtain ⟨later, hlater, h⟩ := Option.bind_eq_some_iff.mp h
        refine ⟨_, later, ?_, hlater, Option.some.inj h⟩
        have hline : Lists (level + 1) (t.StandsAtItem index (.slider s)) _ :=
          .singleton ⟨[], .component index s⟩
        simpa [Spot.lineFrom, String.append_assoc] using hline
    obtain ⟨here, later, hitem, hlater, rfl⟩ := hstep
    refine ((hitem.under index).append (ih hlater) ?_).congr fun spot => standsIn_cons.symm
    -- Later items have greater indices.
    rintro _ _ ⟨spot, -, rfl⟩ ⟨k, -, spot', -, -, rfl⟩
    exact List.cons_lt_cons_iff.mpr (Or.inl (by omega))

theorem linesWithin_succ (t : EditorTree) (bound level : Nat) (id : ParamId) :
    t.linesWithin (bound + 1) level id =
      (panelLines (t.linesWithin bound (level + 1)) (level + 1) 0 (t.openItems id)).map
        ((⟨[], t.entry id⟩ : Spot).lineFrom (level + 1) :: ·) := by
  rw [linesWithin, entry, openItems]
  cases t.get? id with
  | none => simp [panelLines, Spot.lineFrom, String.append_assoc]
  | some e =>
    cases hwidget : e.view.widget with
    | accordion title expanded panel =>
      cases expanded <;>
        simp [View.openItems, hwidget, panelLines, Spot.lineFrom, String.append_assoc]
      exact Option.map_eq_bind.symm
    | empty | slider | checkbox | select | textInput | placeholder =>
      simp [View.openItems, hwidget, panelLines, Spot.lineFrom, String.append_assoc]

/-- The lines of an editor are those of what stands at it and below it. -/
theorem lists_linesWithin (h : t.linesWithin bound level id = some below) :
    Lists (level + 1) (t.StandsBelow id) below := by
  -- Along a way down the bound gets smaller by one and the level greater by one at each panel.
  induction bound generalizing level id below with
  | zero => cases h
  | succ bound ih =>
    rw [linesWithin_succ] at h
    obtain ⟨lines, hpanel, rfl⟩ := Option.map_eq_some_iff.mp h
    have hlists := lists_panelLines (fun c l hl => ih hl) hpanel
    refine ((Lists.singleton _).append hlists ?_).congr fun spot => standsBelow_iff.symm
    rintro _ _ rfl ⟨k, -, spot, -, -, rfl⟩
    exact List.nil_lt_cons _ _

/-- The lines of several editors are those of a panel that shows them. -/
theorem panelLines_map_editor (lines : ParamId → Walk (List String)) (ids : List ParamId) :
    panelLines lines level index (ids.map .editor) = (ids.mapM lines).map List.flatten := by
  induction ids generalizing index with
  | nil => rfl
  | cons id rest ih =>
    simp only [List.map_cons, panelLines, ih, List.mapM_cons]
    cases lines id with
    | none => rfl
    | some here => cases rest.mapM lines <;> rfl

theorem outlineLines_eq (t : EditorTree) :
    t.outlineLines = panelLines (t.linesWithin (t.size + 1) 0) 0 0 (t.roots.map .editor) :=
  (panelLines_map_editor _ _).symm

theorem IsLayered.exists_outlineLines (h : t.IsLayered) : ∃ lines, t.outlineLines = some lines := by
  have hbelow : ∀ id ∈ panelIds (t.roots.map .editor), ∃ l, ∀ n ≥ t.size + 1,
      t.linesWithin n 0 id = some l := fun id _ =>
    h.exists_linesWithin List.nodup_nil (by simp) (by simp) (by simp) 0
  obtain ⟨lines, hlines⟩ := exists_panelLines hbelow 0 0
  exact ⟨lines, t.outlineLines_eq.trans (hlines _ (Nat.le_refl _))⟩

theorem lists_outlineLines (h : t.outlineLines = some below) : Lists 0 t.StandsAt below := by
  rw [outlineLines_eq] at h
  refine (lists_panelLines (fun c l hl => lists_linesWithin hl) h).congr fun spot => ?_
  constructor
  · rintro ⟨k, item, below, hitem, hstands, rfl⟩
    rw [List.getElem?_map] at hitem
    obtain ⟨id, hid, rfl⟩ := Option.map_eq_some_iff.mp hitem
    exact ⟨k, id, below, hid, hstands, by rw [Nat.zero_add]⟩
  · rintro ⟨k, id, below, hid, hstands, rfl⟩
    exact ⟨k, .editor id, below, by simp [hid], hstands, by rw [Nat.zero_add]⟩

/-! ### Ways through open panels -/

/-- The open panel of an editor shows an id. -/
def Opens (t : EditorTree) (g c : ParamId) : Prop := .editor c ∈ t.openItems g

/-- An id is reached from the topmost ones through open panels. -/
def IsReached (t : EditorTree) (id : ParamId) : Prop :=
  ∃ root ∈ t.roots, ReflTransGen t.Opens root id

/-- What an id gives lines to: its own entry, and the sliders of its panel if that is open. -/
def Gives (t : EditorTree) (id : ParamId) (entry : Entry) : Prop :=
  entry = t.entry id ∨
    ∃ index s, (t.openItems id)[index]? = some (.slider s) ∧ entry = .component index s

theorem exists_standsBelow_iff {root : ParamId} {entry : Entry} :
    (∃ place, t.StandsBelow root ⟨place, entry⟩) ↔
      ∃ id, ReflTransGen t.Opens root id ∧ t.Gives id entry := by
  -- A place tells the way to it, and a way from the top on tells the place.
  constructor
  · rintro ⟨place, hstands⟩
    generalize hspot : (⟨place, entry⟩ : Spot) = spot at hstands
    induction hstands generalizing place with
    | here id =>
      obtain ⟨-, rfl⟩ := Spot.mk.inj hspot
      exact ⟨id, .refl, Or.inl rfl⟩
    | @component id index s hitem =>
      obtain ⟨-, rfl⟩ := Spot.mk.inj hspot
      exact ⟨id, .refl, Or.inr ⟨index, s, hitem, rfl⟩⟩
    | @within _ _ _ spot hitem _ ih =>
      obtain ⟨-, rfl⟩ := Spot.mk.inj hspot
      obtain ⟨id, hway, hgives⟩ := ih spot.place rfl
      exact ⟨id, .head (List.mem_of_getElem? hitem) hway, hgives⟩
  · rintro ⟨id, hway, hgives⟩
    induction hway using ReflTransGen.head_induction_on with
    | refl =>
      obtain rfl | ⟨index, s, hitem, rfl⟩ := hgives
      · exact ⟨[], .here id⟩
      · exact ⟨[index], .component hitem⟩
    | head hopens _ ih =>
      obtain ⟨index, hitem⟩ := List.mem_iff_getElem?.mp hopens
      obtain ⟨place, hplace⟩ := ih
      exact ⟨index :: place, .within hitem hplace⟩

/-- Something stands at some place exactly if an id that is reached gives a line to it. -/
theorem exists_standsAt_iff {entry : Entry} :
    (∃ place, t.StandsAt ⟨place, entry⟩) ↔ ∃ id, t.IsReached id ∧ t.Gives id entry := by
  constructor
  · rintro ⟨place, index, root, below, hroot, hstands, hspot⟩
    obtain ⟨-, rfl⟩ := Spot.mk.inj hspot
    obtain ⟨id, hway, hgives⟩ := exists_standsBelow_iff.mp ⟨below.place, hstands⟩
    exact ⟨id, ⟨root, List.mem_of_getElem? hroot, hway⟩, hgives⟩
  · rintro ⟨id, ⟨root, hroot, hway⟩, hgives⟩
    obtain ⟨index, hindex⟩ := List.mem_iff_getElem?.mp hroot
    obtain ⟨place, hplace⟩ := exists_standsBelow_iff.mpr ⟨id, hway, hgives⟩
    exact ⟨index :: place, index, root, _, hindex, hplace, rfl⟩

end EditorTree

end LiveTuner
