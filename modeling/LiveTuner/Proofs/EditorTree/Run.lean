import LiveTuner.Outline
import LiveTuner.Proofs.EditorTree.Change

/-!
# Runs of changes to an editor tree

A tree is loaded and changed any number of times, by definitions that keep every id they share with
the tree in its group. The question is whether every panel goes on showing editors of its own, so
that the outline never has a line for an editor that is missing.

It does exactly as long as no redefinition moves an editor from one panel to another. A group that
stops being an optional value, or becomes one, moves editors between its own panel and that of its
value, and the panel that they leave takes them away after the other one has mounted them.

## Main definitions

* `EditorTree.Change`, `EditorTree.change` — a change, and the tree after it
* `Forest.Admits` — every redefinition keeps to the forest as it is by then
* `EditorTree.StaysSound`, `EditorTree.NothingMoves` — all trees of a run are sound; no redefinition
  in it moves anything
* `EditorTree.outlineOr` — the outline, with given lines for missing editors

## Main results

* `EditorTree.staysSound_load_iff` — the trees of a run are sound exactly if nothing moves
* `EditorTree.not_staysSound_regrouping` — a run in which something moves
-/

namespace LiveTuner

open Relation

/-! ### Outlines -/

section Outline

variable {t : EditorTree} {lines lines' : ParamId → Walk (List String)}

/-- The lines of a panel depend on the lines of the ids that it refers to. -/
theorem panelLines_congr {panel : List PanelItem} (h : ∀ id ∈ panelIds panel, lines id = lines' id)
    (level index : Nat) :
    panelLines lines level index panel = panelLines lines' level index panel := by
  induction panel generalizing index with
  | nil => rfl
  | cons item rest ih =>
    cases item with
    | editor id =>
      rw [panelLines, panelLines, h id List.mem_cons_self,
        ih (fun i hi => h i (List.mem_cons_of_mem _ hi))]
    | slider s => rw [panelLines, panelLines, ih h]

namespace EditorTree

/-- The lines of the editor of an id and of what its panel shows, with given lines where an editor
is missing. -/
def linesOr (t : EditorTree) (missing : Nat → ParamId → List String) :
    Nat → Nat → ParamId → Walk (List String)
  | 0, _, _ => none
  | bound + 1, level, id =>
    match t.get? id with
    | none => some (missing level id)
    | some e => do
      let header := s!"{indentation level}{e.view.line}  ({id.text})"
      match e.view.widget with
      | .accordion _ true panel =>
        let below ← panelLines (t.linesOr missing bound (level + 1)) (level + 1) 0 panel
        pure (header :: below)
      | _ => pure [header]

/-- The outline, with given lines where an editor is missing. -/
def outlineOr (t : EditorTree) (missing : Nat → ParamId → List String) : Walk String :=
  (t.roots.mapM (t.linesOr missing (t.size + 1) 0)).map fun lines =>
    String.join (lines.flatten.map (· ++ "\n"))

/-- The line that the outline has for a missing editor. -/
def missingLine (level : Nat) (id : ParamId) : List String :=
  [s!"{indentation level}<missing editor {id.text}>"]

theorem linesOr_missingLine (t : EditorTree) (bound level : Nat) (id : ParamId) :
    t.linesOr missingLine bound level id = t.linesWithin bound level id := by
  induction bound generalizing level id with
  | zero => rfl
  | succ bound ih =>
    rw [linesOr, linesWithin, funext (ih (level + 1))]
    rfl

theorem outlineOr_missingLine (t : EditorTree) : t.outlineOr missingLine = t.outline := by
  rw [outlineOr, outline, outlineLines, funext (t.linesOr_missingLine _ 0), Option.map_map]
  rfl

/-- In a sound tree, no line of an editor or below it is one for a missing editor. -/
theorem IsSound.linesOr_eq (h : t.IsSound) (missing missing' : Nat → ParamId → List String)
    {bound : Nat} {id : ParamId} (hlive : t.get? id ≠ none) (level : Nat) :
    t.linesOr missing bound level id = t.linesOr missing' bound level id := by
  induction bound generalizing id level with
  | zero => rfl
  | succ bound ih =>
    obtain ⟨e, he⟩ := Option.ne_none_iff_exists'.mp hlive
    simp only [linesOr, he]
    split
    · next title panel hwidget =>
      have hbelow : ∀ c ∈ panelIds panel, t.linesOr missing bound (level + 1) c =
          t.linesOr missing' bound (level + 1) c := by
        intro c hc
        refine ih (h.shown id c ⟨e, he, ?_⟩).1 (level + 1)
        rwa [View.childIds, hwidget]
      rw [panelLines_congr hbelow]
    · rfl

/-- The outline of a sound tree has no line for a missing editor. -/
theorem IsSound.outlineOr_eq (h : t.IsSound) (missing : Nat → ParamId → List String) :
    t.outlineOr missing = t.outline := by
  rw [← outlineOr_missingLine, outlineOr, outlineOr]
  congr 1
  have hroots : ∀ roots : List ParamId, (∀ id ∈ roots, t.get? id ≠ none) →
      roots.mapM (t.linesOr missing (t.size + 1) 0) =
        roots.mapM (t.linesOr missingLine (t.size + 1) 0) := by
    intro roots hroots
    induction roots with
    | nil => rfl
    | cons id rest ih =>
      rw [List.mapM_cons, List.mapM_cons,
        h.linesOr_eq missing missingLine (hroots id List.mem_cons_self),
        ih fun i hi => hroots i (List.mem_cons_of_mem _ hi)]
  exact hroots t.roots h.topmost

end EditorTree

end Outline

/-! ### Changes -/

namespace EditorTree

/-- A change to a tree. -/
inductive Change where
  /-- A definition comes in. -/
  | reconcile (p : Param)
  /-- The user does something to the editor of an id. -/
  | interact (id : ParamId) (interaction : Interaction)
  /-- The node pushes a value. -/
  | bindValue (id : ParamId) (val : Value)

/-- The tree after a change; what is refused changes nothing. -/
def change (t : EditorTree) : Change → Walk EditorTree
  | .reconcile p => (t.reconcile p).map fun
    | .ok t => t
    | .error _ => t
  | .interact id interaction => (t.interact id interaction).map fun
    | .ok (t, _) => t
    | .error _ => t
  | .bindValue id val => (t.bindValue id val).map fun
    | .ok t => t
    | .error _ => t

/-- A change mounts a definition that moves something. -/
def MovesBy (t : EditorTree) (c : Change) : Prop :=
  ∃ p m, c = .reconcile p ∧ t.mountFor p = some (some m) ∧ t.Moves m.param

/-- The changes can be made one after the other, and all trees from the present one on are sound. -/
def StaysSound (t : EditorTree) : List Change → Prop
  | [] => t.IsSound
  | c :: rest => t.IsSound ∧ ∃ t', t.change c = some t' ∧ t'.StaysSound rest

/-- None of the changes, made one after the other, moves anything. -/
def NothingMoves (t : EditorTree) : List Change → Prop
  | [] => True
  | c :: rest => ¬ t.MovesBy c ∧ ∀ t', t.change c = some t' → t'.NothingMoves rest

end EditorTree

namespace Forest

/-- Every redefinition of a known id keeps to the forest as it is by then. -/
def Admits (f : Forest) : List EditorTree.Change → Prop
  | [] => True
  | .reconcile p :: rest =>
    (p.id ∈ f.ids → f.Keeps p) ∧ Admits (if p.id ∈ f.ids then f.define p else f) rest
  | .interact .. :: rest => f.Admits rest
  | .bindValue .. :: rest => f.Admits rest

instance decidableAdmits :
    (f : Forest) → (changes : List EditorTree.Change) → Decidable (f.Admits changes)
  | _, [] => .isTrue trivial
  | f, .reconcile p :: rest =>
    @instDecidableAnd _ _ _ (decidableAdmits (if p.id ∈ f.ids then f.define p else f) rest)
  | f, .interact .. :: rest => decidableAdmits f rest
  | f, .bindValue .. :: rest => decidableAdmits f rest

/-- Two forests have the same ids in the same groups. -/
structure SameGroups (f f' : Forest) : Prop where
  /-- The ids are the same. -/
  mem_ids_iff : ∀ id, id ∈ f'.ids ↔ id ∈ f.ids
  /-- The members are the same. -/
  under_iff : ∀ c g, Under f'.nodes c g ↔ Under f.nodes c g

variable {f f' : Forest} {p : Param} {changes : List EditorTree.Change}

theorem SameGroups.idsAt_iff (h : SameGroups f f') (hf : f.ids.Nodup) (hf' : f'.ids.Nodup)
    (c g : ParamId) : c ∈ f'.idsAt g ↔ c ∈ f.idsAt g := by
  have hunder : Under f'.nodes = Under f.nodes := funext₂ fun c g => propext (h.under_iff c g)
  rw [Forest.mem_idsAt_iff hf', Forest.mem_idsAt_iff hf, h.mem_ids_iff, hunder]

theorem SameGroups.define (h : SameGroups f f') (hf : f.ids.Nodup) (hf' : f'.ids.Nodup)
    (p : Param) : SameGroups (f.define p) (f'.define p) := by
  refine ⟨fun id => ?_, fun c g => ?_⟩
  · rw [mem_ids_define hf, mem_ids_define hf', h.mem_ids_iff, h.idsAt_iff hf hf']
  · rw [under_define hf, under_define hf', h.under_iff, h.idsAt_iff hf hf']

theorem SameGroups.trans {f'' : Forest} (h : SameGroups f f') (h' : SameGroups f' f'') :
    SameGroups f f'' :=
  ⟨fun id => (h'.mem_ids_iff id).trans (h.mem_ids_iff id),
    fun c g => (h'.under_iff c g).trans (h.under_iff c g)⟩

theorem SameGroups.keeps (h : SameGroups f f') (hp : f.Keeps p) : f'.Keeps p :=
  ⟨hp.1, fun c g hcg hc => (h.under_iff c g).mpr (hp.2 c g hcg ((h.mem_ids_iff c).mp hc))⟩

/-- A parameter that is no group takes its place without changing the groups. -/
theorem sameGroups_define_leaf {q : Param} (hf : f.ids.Nodup) (hq : q ∈ f.nodes)
    (hid : q.id = p.id) (hqleaf : q.children = []) (hpleaf : p.children = []) :
    SameGroups f (f.define p) := by
  have hids : ∀ {x : Param}, x.children = [] → x.ids = [x.id] := by
    intro x hx
    rw [Param.ids_eq_cons, Param.descendantIds_eq, hx]
    rfl
  have hnodes : p.nodes = [p] := by rw [Param.nodes_eq, hpleaf, List.flatMap_nil]
  have hat : f.idsAt p.id = [p.id] := by rw [← hid, idsAt_id hf hq, hids hqleaf]
  have hmem : p.id ∈ f.ids := hid ▸ mem_ids_of_mem_nodes hq
  have hnone : ∀ {c g}, Under [p] c g → False := by
    rintro c g ⟨x, hx, -, m, hm, -⟩
    rw [List.mem_singleton.mp hx, hpleaf] at hm
    exact List.not_mem_nil hm
  refine ⟨fun id => ?_, fun c g => ?_⟩
  · rw [mem_ids_define hf, hat, hids hpleaf, List.mem_singleton]
    by_cases hidp : id = p.id
    · simp [hidp, hmem]
    · simp [hidp]
  · -- Neither the old parameter nor the new one has members.
    rw [under_define hf, hnodes, hat, List.mem_singleton]
    refine ⟨fun h => (h.resolve_left hnone).2, fun hcg => Or.inr ⟨fun hg => ?_, hcg⟩⟩
    obtain ⟨x, hx, hxid, m, hm, -⟩ := hcg
    rw [eq_of_id_eq hf hx hq (hxid.trans (hg.trans hid.symm)), hqleaf] at hm
    exact List.not_mem_nil hm

end Forest

namespace EditorTree

variable {t t' : EditorTree} {f : Forest} {changes : List Change} {c : Change}

theorem movesBy_reconcile_iff {p : Param} :
    t.MovesBy (.reconcile p) ↔ ∃ m, t.mountFor p = some (some m) ∧ t.Moves m.param := by
  constructor
  · intro ⟨p', m, hp, hm, hmoves⟩
    obtain rfl := Change.reconcile.inj hp
    exact ⟨m, hm, hmoves⟩
  · intro ⟨m, hm, hmoves⟩
    exact ⟨p, m, rfl, hm, hmoves⟩

theorem not_movesBy_interact (id : ParamId) (interaction : Interaction) :
    ¬ t.MovesBy (.interact id interaction) := by
  intro ⟨p, m, hp, _⟩
  cases hp

theorem not_movesBy_bindValue (id : ParamId) (val : Value) : ¬ t.MovesBy (.bindValue id val) := by
  intro ⟨p, m, hp, _⟩
  cases hp

/-- A change leads to a faithful tree with the groups of a forest, in which editors stand in panels.
From a sound tree it leads to a sound one exactly if it moves nothing. -/
structure LeadsTo (t : EditorTree) (c : Change) (t' : EditorTree) (f' : Forest) : Prop where
  /-- The change can be made. -/
  change_eq : t.change c = some t'
  /-- The tree is faithful. -/
  isFaithful : t'.IsFaithful
  /-- No id stands twice in the forest. -/
  nodup_ids : f'.ids.Nodup
  /-- The tree has the groups of the forest. -/
  sameGroups : f'.SameGroups t'.forest
  /-- Editors stand in panels. -/
  isHeld : t'.IsHeld
  /-- After a sound tree, it is sound exactly if the change moves nothing. -/
  isSound_iff : t.IsSound → (t'.IsSound ↔ ¬ t.MovesBy c)

/-- A redefinition of a known id leads to the forest in which it has taken its place, all others
are refused. -/
theorem leadsTo_reconcile {p : Param} (hf : t.IsFaithful) (hh : t.IsHeld) (hnodup : f.ids.Nodup)
    (hsame : f.SameGroups t.forest) (hkeeps : p.id ∈ f.ids → f.Keeps p) :
    ∃ t', t.LeadsTo (.reconcile p) t' (if p.id ∈ f.ids then f.define p else f) := by
  by_cases hmem : p.id ∈ f.ids
  · rw [if_pos hmem]
    have hp := hsame.keeps (hkeeps hmem)
    obtain ⟨m, t₂, htaken⟩ := hf.reconcile hh hp ((hsame.mem_ids_iff p.id).mpr hmem)
    have hsame₂ := hsame.define hnodup hf.nodup_ids p
    refine ⟨t₂, by simp [change, htaken.reconcile_eq], htaken.isFaithful,
      Forest.nodup_ids_define hnodup ((hkeeps hmem).fits hnodup), htaken.forest_eq ▸ hsame₂,
      htaken.isHeld hf hh, fun hs => ?_⟩
    rw [htaken.isSound_iff_not_moves hf hs, movesBy_reconcile_iff]
    simp [htaken.mountFor_eq]
  · rw [if_neg hmem]
    obtain ⟨hm, hreconcile⟩ := hf.reconcile_of_notMem hh
      (mt (hsame.mem_ids_iff p.id).mp hmem)
    refine ⟨t, by simp [change, hreconcile], hf, hnodup, hsame, hh, fun hs => iff_of_true hs ?_⟩
    rw [movesBy_reconcile_iff]
    simp [hm]

/-- An edit that gives a parameter that is no group another control leads to the same groups. -/
theorem leadsTo_of_define {t₂ : EditorTree} {p : Param} {id : ParamId} {e : Editor}
    (hf : t.IsFaithful) (hh : t.IsHeld) (hnodup : f.ids.Nodup) (hsame : f.SameGroups t.forest)
    (he : t.get? id = some e) (hid : p.id = e.param.id) (hleaf : e.param.children = [])
    (hpleaf : p.children = []) (heq : t.change c = some t₂) (hshown : SameShown t t₂)
    (hf₂ : t₂.IsFaithful) (hforest : t₂.forest = t.forest.define p) (hc : ¬ t.MovesBy c) :
    t.LeadsTo c t₂ f := by
  have hnode := (hf.bound id e he).1
  have hgroups := Forest.sameGroups_define_leaf hf.nodup_ids hnode hid.symm hleaf hpleaf
  exact ⟨heq, hf₂, hnodup, hforest ▸ hsame.trans hgroups, hshown.isHeld_iff.mpr hh,
    fun hs => iff_of_true (hshown.isSound hs) hc⟩

theorem leadsTo_interact (hf : t.IsFaithful) (hh : t.IsHeld) (hnodup : f.ids.Nodup)
    (hsame : f.SameGroups t.forest) (id : ParamId) (interaction : Interaction) :
    ∃ t', t.LeadsTo (.interact id interaction) t' f := by
  have hc := not_movesBy_interact (t := t) id interaction
  rcases hf.interact hh id interaction with ⟨problem, heq⟩ | ⟨t₂, heq, hshown, hf₂, hforest⟩ |
    ⟨e, name, ctl, ctl', t₂, he, hparam, -, heq, hshown, hf₂, hforest⟩
  · exact ⟨t, by simp [change, heq], hf, hnodup, hsame, hh, fun hs => iff_of_true hs hc⟩
  · exact ⟨t₂, by simp [change, heq], hf₂, hnodup, hforest ▸ hsame, hshown.isHeld_iff.mpr hh,
      fun hs => iff_of_true (hshown.isSound hs) hc⟩
  · have hchange : t.change (.interact id interaction) = some t₂ := by simp [change, heq]
    have hid : (Param.leaf id name ctl').id = e.param.id := by
      rw [hparam, Param.id_leaf, Param.id_leaf]
    have hleaf : e.param.children = [] := by rw [hparam, Param.children_leaf]
    exact ⟨t₂, leadsTo_of_define hf hh hnodup hsame he hid hleaf rfl hchange hshown hf₂ hforest hc⟩

theorem leadsTo_bindValue (hf : t.IsFaithful) (hh : t.IsHeld) (hnodup : f.ids.Nodup)
    (hsame : f.SameGroups t.forest) (id : ParamId) (val : Value) :
    ∃ t', t.LeadsTo (.bindValue id val) t' f := by
  have hc := not_movesBy_bindValue (t := t) id val
  rcases hf.bindValue hh id val with ⟨problem, heq⟩ |
    ⟨e, p, t₂, he, hset, heq, hshown, hf₂, hforest⟩
  · exact ⟨t, by simp [change, heq], hf, hnodup, hsame, hh, fun hs => iff_of_true hs hc⟩
  · have hchange : t.change (.bindValue id val) = some t₂ := by simp [change, heq]
    obtain ⟨hid, hpleaf⟩ := Forest.setValue?_eq_some hset
    have hleaf : e.param.children = [] := by
      cases hparam : e.param with
      | leaf i name ctl => rfl
      | group i name params hidden => simp [hparam, Param.setValue?] at hset
    exact ⟨t₂, leadsTo_of_define hf hh hnodup hsame he hid hleaf hpleaf hchange hshown hf₂ hforest
      hc⟩

/-- A change that the forest admits leads to a tree of the forest that follows. -/
theorem exists_leadsTo (hf : t.IsFaithful) (hh : t.IsHeld) (hnodup : f.ids.Nodup)
    (hsame : f.SameGroups t.forest) (h : f.Admits (c :: changes)) :
    ∃ t' f', t.LeadsTo c t' f' ∧ f'.Admits changes := by
  cases c with
  | reconcile p =>
    obtain ⟨hkeeps, hrest⟩ := h
    obtain ⟨t', hleads⟩ := leadsTo_reconcile hf hh hnodup hsame hkeeps
    exact ⟨t', _, hleads, hrest⟩
  | interact id interaction =>
    obtain ⟨t', hleads⟩ := leadsTo_interact hf hh hnodup hsame id interaction
    exact ⟨t', f, hleads, h⟩
  | bindValue id val =>
    obtain ⟨t', hleads⟩ := leadsTo_bindValue hf hh hnodup hsame id val
    exact ⟨t', f, hleads, h⟩

/-- From a sound tree, the trees of a run are sound exactly if nothing moves. -/
theorem staysSound_iff (hf : t.IsFaithful) (hs : t.IsSound) (hnodup : f.ids.Nodup)
    (hsame : f.SameGroups t.forest) (h : f.Admits changes) :
    t.StaysSound changes ↔ t.NothingMoves changes := by
  induction changes generalizing t f with
  | nil => exact iff_of_true hs trivial
  | cons c rest ih =>
    obtain ⟨t₁, f₁, ⟨heq, hf₁, hnodup₁, hsame₁, -, hiff⟩, hrest⟩ :=
      exists_leadsTo hf hs.held hnodup hsame h
    -- The next tree is sound exactly if this change moves nothing, so one case remains.
    simp only [StaysSound, NothingMoves, heq, Option.some_inj, exists_eq_left', forall_eq', hs,
      true_and, ← hiff hs]
    constructor
    · intro hstays
      have hs₁ : t₁.IsSound := by
        cases rest with
        | nil => exact hstays
        | cons c' rest' => exact hstays.1
      exact ⟨hs₁, (ih hf₁ hs₁ hnodup₁ hsame₁ hrest).mp hstays⟩
    · rintro ⟨hs₁, hnothing⟩
      exact (ih hf₁ hs₁ hnodup₁ hsame₁ hrest).mpr hnothing

/-- A tree is loaded from definitions without repeated ids and changed by redefinitions that keep
every known id in its group, by interactions and by pushed values, in any order. Then every tree on
the way is sound exactly if no redefinition moves an editor from the panel it stands in to another
one; and the outline of a sound tree is the same whatever it would have in place of a missing
editor. -/
theorem staysSound_load_iff (t : EditorTree) {ps : List Param} {changes : List Change}
    (hps : (Forest.ids ps).Nodup) (h : Forest.Admits ps changes) :
    ((t.load ps).StaysSound changes ↔ (t.load ps).NothingMoves changes) ∧
    ∀ t' : EditorTree, t'.IsSound → ∀ missing, t'.outlineOr missing = t'.outline := by
  obtain ⟨hf, hs, hforest⟩ := isSound_load t hps
  refine ⟨staysSound_iff hf hs hps ?_ h, fun t' ht' missing => ht'.outlineOr_eq missing⟩
  rw [hforest]
  exact ⟨fun _ => Iff.rfl, fun _ _ => Iff.rfl⟩

/-! ### Runs -/

/-- A parameter that is no group moves nothing. -/
theorem not_moves_of_leaf {p : Param} (h : p.children = []) : ¬ t.Moves p := by
  rintro ⟨q, g, o, hq, ho, hne⟩
  have hpanel : p.panel = [] := by
    cases p with
    | leaf i name control => rfl
    | group i name params hidden =>
      obtain rfl : params = [] := List.map_eq_nil_iff.mp h
      rfl
  rcases Param.placed_iff.mp hq with ⟨rfl, hg⟩ | ⟨c, hc, -⟩
  · exact hne (Option.some.inj (ho.symm.trans hg.symm))
  · rw [hpanel] at hc
    exact List.not_mem_nil hc

/-- An optional value: its two parameters stand in the panel of the group above it. -/
def optionalNoise : Param :=
  .group ⟨1⟩ "noise" [("on", .leaf ⟨2⟩ ".enabled" (.flag true)),
    ("value", .group ⟨3⟩ ".enabled_value" [("low", .leaf ⟨4⟩ "low" (.flag true)),
      ("high", .leaf ⟨5⟩ "high" (.flag true))] [])] []

/-- The same group with a further parameter: no optional value any more. -/
def listedNoise : Param :=
  .group ⟨1⟩ "noise" [("on", .leaf ⟨2⟩ ".enabled" (.flag true)),
    ("value", .group ⟨3⟩ ".enabled_value" [("low", .leaf ⟨4⟩ "low" (.flag true)),
      ("high", .leaf ⟨5⟩ "high" (.flag true))] []), ("seed", .leaf ⟨6⟩ "seed" (.flag true))] []

/-- A panel is opened, a flag comes in anew, and a value is pushed. -/
def reflagging : List Change :=
  [.interact ⟨1⟩ .toggle, .reconcile (.leaf ⟨2⟩ ".enabled" (.flag false)),
    .bindValue ⟨4⟩ (.bool false)]

theorem staysSound_reflagging :
    (Forest.ids [optionalNoise]).Nodup ∧ Forest.Admits [optionalNoise] reflagging ∧
    (empty.load [optionalNoise]).StaysSound reflagging := by
  have hids : (Forest.ids [optionalNoise]).Nodup := by decide
  have hadmits : Forest.Admits [optionalNoise] reflagging := by decide
  refine ⟨hids, hadmits, (staysSound_load_iff empty hids hadmits).1.mpr ?_⟩
  refine ⟨not_movesBy_interact _ _, fun t₁ ht₁ => ⟨?_, fun t₂ _ =>
    ⟨not_movesBy_bindValue _ _, fun _ _ => trivial⟩⟩⟩
  · rw [movesBy_reconcile_iff]
    intro ⟨m, hm, hmoves⟩
    have hlive : (((empty.load [optionalNoise]).change (.interact ⟨1⟩ .toggle)).bind
        fun t => t.get? ⟨2⟩).isSome = true := by decide
    rw [ht₁, Option.bind_some] at hlive
    obtain ⟨e, he⟩ := Option.isSome_iff_exists.mp hlive
    have hmount : t₁.mountFor (.leaf ⟨2⟩ ".enabled" (.flag false)) =
        some (some ⟨.leaf ⟨2⟩ ".enabled" (.flag false), e.labelled⟩) := by
      simp [mountFor, he]
    rw [hmount, Option.some_inj, Option.some_inj] at hm
    exact not_moves_of_leaf (by rw [← hm]; rfl) hmoves

/-- A panel is opened, the optional value becomes a group like any other, and that is opened. -/
def regrouping : List Change :=
  [.interact ⟨1⟩ .toggle, .reconcile listedNoise, .interact ⟨3⟩ .toggle]

/-- The parameters of the optional value move to its own panel, and are taken away with the panel
they leave. -/
theorem not_staysSound_regrouping :
    (Forest.ids [optionalNoise]).Nodup ∧ Forest.Admits [optionalNoise] regrouping ∧
    ¬ (empty.load [optionalNoise]).StaysSound regrouping ∧
    (regrouping.foldlM change (empty.load [optionalNoise])).bind outline =
      some ("v noise  (#1)\n  .enabled: [x]  (#2)\n  v .enabled_value  (#3)\n"
        ++ "    <missing editor #4>\n    <missing editor #5>\n  seed: [x]  (#6)\n") := by
  refine ⟨by decide, by decide, ?_, by decide⟩
  rintro ⟨-, t₁, ht₁, -, t₂, ht₂, hstays⟩
  have hs : t₂.IsSound := hstays.1
  have hpanel : ((empty.load [optionalNoise]).change (.interact ⟨1⟩ .toggle)).bind (fun t =>
      (t.change (.reconcile listedNoise)).bind fun t =>
        (t.get? ⟨3⟩).map fun e => (e.view.childIds, (t.get? ⟨4⟩).isSome)) =
      some ([⟨4⟩, ⟨5⟩], false) := by decide
  rw [ht₁, Option.bind_some, ht₂, Option.bind_some] at hpanel
  obtain ⟨e, he, hshown⟩ := Option.map_eq_some_iff.mp hpanel
  obtain ⟨hids, hmissing⟩ := Prod.mk.inj hshown
  refine (hs.shown ⟨3⟩ ⟨4⟩ ⟨e, he, by simp [hids]⟩).1 ?_
  simpa using hmissing

end EditorTree

end LiveTuner
