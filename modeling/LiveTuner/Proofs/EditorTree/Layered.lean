import LiveTuner.Proofs.EditorTree.Instances

/-!
# Panels that do not go round

The outline follows the panels from one editor to the next, through the map of all editors, where
nothing keeps a panel from showing an editor further up. It ends all the same, whatever the
definitions are: they may repeat ids and nest an id below itself.

The reason is the order in which editors are painted. A group is painted first, and then everything
that its panel asks for is mounted, that is, painted anew. While this goes on, the way round a
circle of panels would lead through an editor that is still to be mounted; and once an editor has
been painted, all that its own panel shows is still to be mounted.

## Main definitions

* `EditorTree.Displays`, `EditorTree.IsLayered` — a panel shows an editor; none is shown below
  itself
* `EditorTree.IsLayeredBut` — none is, if the editors of some ids are left aside
* `EditorTree.Call`, `EditorTree.call`, `EditorTree.calls` — loads and changes

## Main results

* `EditorTree.IsLayeredBut.mountWithin` — a mount settles the id that it was to mount
* `EditorTree.IsLayered.exists_linesWithin` — then the lines of every editor can be painted
* `EditorTree.isLayered_of_calls` — so they can after any calls
-/

namespace LiveTuner

open Relation

/-! ### Painted panels -/

/-- A painted panel shows what the editor wants mounted, whatever it is bound to. -/
theorem Editor.mem_mounts_of_mem_childIds {e : Editor} {c : ParamId}
    (hc : c ∈ e.rebuild.view.childIds) : c ∈ e.mounts.map (·.param.id) := by
  rw [rebuild] at hc
  simp only [View.childIds, widget] at hc
  cases hkind : e.kind with
  | group =>
    cases hp : e.param with
    | leaf i name control => simp [hkind, hp] at hc
    | group i name params hidden =>
      simp only [hkind, hp, EditorTree.panelIds_groupPanel] at hc
      simpa [mounts, hkind, hp] using hc
  | vector =>
    simp only [hkind] at hc
    -- The sliders of a vector are no editors.
    cases hcontrol : e.param.control? with
    | none => simp [hcontrol] at hc
    | some control =>
      cases control <;> simp [hcontrol, EditorTree.panelIds_vectorPanel] at hc
  | unresolved => simp [hkind] at hc
  | scalar | choice | flag | text =>
    simp only [hkind] at hc
    cases hcontrol : e.param.control? with
    | none => simp [hcontrol] at hc
    | some control => cases control <;> simp [hcontrol, selectOf] at hc

/-- An editor fits an id: it is bound to a parameter of that id, and is of its kind. -/
structure Editor.Fits (e : Editor) (id : ParamId) : Prop where
  /-- It is bound to a parameter of the id. -/
  id_eq : e.param.id = id
  /-- It is of the kind of that parameter. -/
  kind_eq : e.kind = e.param.kind

theorem Editor.Fits.patchEditor {e : Editor} {id : ParamId} (h : e.Fits id) (p : Param) :
    (EditorTree.patchEditor p e).Fits id := by
  refine ⟨?_, ?_⟩
  · rw [EditorTree.param_patchEditor, Param.id_replaceDescendant]
    exact h.id_eq
  · rw [EditorTree.kind_patchEditor, EditorTree.param_patchEditor,
      EditorTree.kind_replaceDescendant]
    exact h.kind_eq

theorem Editor.Fits.store {e e' : Editor} {id : ParamId} (h : e.Fits id) (hstored : e.Stored e') :
    e'.Fits id := by
  obtain ⟨i, name, c, c', hp, hp', hc⟩ := hstored.exists_leaf
  refine ⟨?_, ?_⟩
  · rw [hp', ← h.id_eq, hp]
    rfl
  · rw [hstored.kind_eq, h.kind_eq, hp, hp']
    exact hc.symm

namespace EditorTree

variable {s t t' : EditorTree} {g c i id : ParamId} {pending current : List ParamId} {m : Mount}
  {par : Option ParamId} {p : Param} {level : Nat}

/-- The panel of an editor shows the editor of an id. -/
def Displays (t : EditorTree) (g c : ParamId) : Prop := t.Shows g c ∧ t.get? c ≠ none

/-- No editor is shown below itself. -/
def IsLayered (t : EditorTree) : Prop := ∀ id, ¬ TransGen t.Displays id id

/-- The panel of an editor shows the editor of an id that is not left aside. -/
def DisplaysBut (t : EditorTree) (pending : List ParamId) (g c : ParamId) : Prop :=
  t.Displays g c ∧ c ∉ pending

/-- No editor is shown below itself without an id between that is left aside. -/
def IsLayeredBut (t : EditorTree) (pending : List ParamId) : Prop :=
  ∀ id, ¬ TransGen (t.DisplaysBut pending) id id

theorem isLayeredBut_nil_iff : t.IsLayeredBut [] ↔ t.IsLayered := by
  have heq : t.DisplaysBut [] = t.Displays := by
    funext g c
    simp [DisplaysBut]
  rw [IsLayeredBut, IsLayered, heq]

theorem IsLayeredBut.mono {pending' : List ParamId} (h : s.IsLayeredBut pending)
    (hsub : ∀ g c, t.DisplaysBut pending' g c → s.DisplaysBut pending g c) :
    t.IsLayeredBut pending' :=
  fun id hid => h id (TransGen.mono hsub _ _ hid)

/-- Taking editors away takes panels away. -/
theorem IsLayeredBut.of_keptOrGone (h : s.IsLayeredBut pending) (hkept : ∀ z, KeptOrGone s t z) :
    t.IsLayeredBut pending := by
  have hget : ∀ z, t.get? z ≠ none → t.get? z = s.get? z := fun z hz =>
    (hkept z).elim (·.1) fun hgone => absurd hgone.1 hz
  refine h.mono fun g c ⟨⟨hshows, hlive⟩, hc⟩ => ⟨⟨?_, hget c hlive ▸ hlive⟩, hc⟩
  exact hshows.of_get?_eq (hget g hshows.get?_ne_none).symm

theorem IsLayered.of_sameShown (h : s.IsLayered) (hsame : SameShown s t) : t.IsLayered := by
  intro id hid
  refine h id (TransGen.mono (fun g c ⟨hshows, hlive⟩ => ⟨?_, ?_⟩) _ _ hid)
  · exact (hsame.shows_iff g c).mp hshows
  · exact mt (hsame.get?_eq_none_iff c).mpr hlive

/-! ### Mounting -/

/-- Where no step starts at `i`, no way to another end leads through `i`. -/
theorem transGen_of_source_ne {r r' : ParamId → ParamId → Prop} (hsource : ∀ g c, r g c → g ≠ i)
    (hr : ∀ g c, r g c → c ≠ i → r' g c) (hgc : TransGen r g c) (hc : c ≠ i) :
    TransGen r' g c := by
  induction hgc with
  | single hstep => exact .single (hr _ _ hstep hc)
  | tail _ hstep ih => exact .tail (ih (hsource _ _ hstep)) (hr _ _ hstep hc)

/-- Once an editor has been painted, all that its panel shows is still to be mounted, and it is not
any more. -/
theorem IsLayeredBut.paint (h : s.IsLayeredBut (i :: pending))
    (hkeep : ∀ z, z ≠ i → t.get? z = s.get? z) (hshown : ∀ c, t.Shows i c → c ∈ current) :
    t.IsLayeredBut (current ++ pending) := by
  -- The panel of `i` leads to what is left aside only, so a way round does not pass `i`.
  have hsource : ∀ g c, t.DisplaysBut (current ++ pending) g c → g ≠ i := by
    rintro g c ⟨⟨hshows, -⟩, hc⟩ rfl
    exact hc (List.mem_append_left _ (hshown c hshows))
  intro id hid
  obtain ⟨x, hx, -⟩ := TransGen.head'_iff.mp hid
  refine h id (transGen_of_source_ne hsource (fun g c hgc hci => ?_) hid (hsource _ _ hx))
  have hgi := hsource g c hgc
  obtain ⟨⟨hshows, hlive⟩, hc⟩ := hgc
  refine ⟨⟨hshows.of_get?_eq (hkeep g hgi).symm, hkeep c hci ▸ hlive⟩, fun hmem => ?_⟩
  exact (List.mem_cons.mp hmem).elim hci fun hmem => hc (List.mem_append_right _ hmem)

theorem param_editorFor (s : EditorTree) (m : Mount) : (s.editorFor m).1.param = m.param := by
  rw [editorFor]
  split
  · rfl
  · split_ifs <;> rfl

theorem get?_editorFor (s : EditorTree) (m : Mount) (z : ParamId) :
    (s.editorFor m).2.1.get? z = s.get? z := by
  rw [editorFor]
  split
  · rfl
  · split_ifs <;> rfl

/-- Several mounts, each of which settles its id, settle the ids of all. -/
theorem IsLayeredBut.foldl {f : EditorTree → Mount → EditorTree} {mounts : List Mount}
    (hf : ∀ m ∈ mounts, ∀ (s : EditorTree) (pending : List ParamId),
      s.IsLayeredBut (m.param.id :: pending) → (f s m).IsLayeredBut pending)
    (h : s.IsLayeredBut (mounts.map (·.param.id) ++ pending)) :
    (mounts.foldl f s).IsLayeredBut pending := by
  induction mounts generalizing s with
  | nil => exact h
  | cons m rest ih =>
    obtain ⟨hm, hrest⟩ := List.forall_mem_cons.mp hf
    exact ih hrest (hm s _ h)

/-- A mount settles its id: if no editor was shown below itself without passing that id or one of
`pending`, then none is afterwards without passing one of `pending`. The panels that are painted on
the way may be those of any editors, that of the id once more among them. -/
theorem IsLayeredBut.mountWithin {bound : Nat} (hbound : m.param.height ≤ bound)
    (h : s.IsLayeredBut (m.param.id :: pending)) :
    (mountWithin bound par s m).IsLayeredBut pending := by
  -- Members are lower than their group, so the bound on heights is what the induction is on; the
  -- tree and the ids left aside are whatever the mounts before have left.
  induction bound generalizing s m par pending with
  | zero => exact absurd hbound (Nat.not_le_of_gt (height_pos m.param))
  | succ bound ih =>
    have hparam := s.param_editorFor m
    have hget := s.get?_editorFor m
    rw [EditorTree.mountWithin]
    generalize s.editorFor m = found at hparam hget ⊢
    obtain ⟨e, s₁, previous⟩ := found
    dsimp only at hparam hget ⊢
    -- The group itself is painted before its members.
    have hpainted : ((s₁.setEditor m.param.id e.rebuild).setParent m.param.id par).IsLayeredBut
        (e.rebuild.mounts.map (·.param.id) ++ pending) := by
      refine h.paint (fun z hz => ?_) fun c hc => ?_
      · simp [hz.symm, hget]
      · obtain ⟨e', he', hc⟩ := hc
        obtain rfl : e.rebuild = e' := by simpa using he'
        exact Editor.mem_mounts_of_mem_childIds hc
    have hmounted := hpainted.foldl (f := EditorTree.mountWithin bound (some m.param.id))
      fun m' hm' s' pending' hs' => ?_
    · -- What the panel no longer shows is taken away last.
      exact hmounted.of_keptOrGone fun z =>
        keptOrGone_foldl (fun s y => keptOrGone_remove s y z) _ _
    · have hpanel := hparam ▸ Satisfies.mem_panelMounts_of_mem_mounts hm'
      have hlt := Param.height_lt_of_mem_panel (List.mem_map_of_mem hpanel)
      exact ih (Nat.le_of_lt_succ (Nat.lt_of_lt_of_le hlt hbound)) hs'

theorem IsLayered.mount (h : s.IsLayered) (m : Mount) (par : Option ParamId) :
    (s.mount m par).IsLayered := by
  have haside : s.IsLayeredBut [m.param.id] :=
    (isLayeredBut_nil_iff.mpr h).mono fun g c ⟨hgc, _⟩ => ⟨hgc, List.not_mem_nil⟩
  exact isLayeredBut_nil_iff.mp (haside.mountWithin (Nat.le_refl _))

/-! ### Calls -/

theorem allows_fits : Allows (fun id e => e.Fits id) (fun _ _ => True) (fun _ => True) where
  panel _ _ _ _ := ⟨trivial, trivial⟩
  created _ _ _ := ⟨rfl, rfl⟩
  bound _ _ _ he hkind := ⟨rfl, he.kind_eq.trans hkind⟩

/-- A tree in which every editor fits its id, and none is shown below itself. -/
structure IsPaintable (t : EditorTree) : Prop where
  /-- An editor fits its id. -/
  fits : t.Satisfies (fun id e => e.Fits id) (fun _ _ => True)
  /-- No editor is shown below itself. -/
  isLayered : t.IsLayered

theorem isPaintable_clear (t : EditorTree) : t.clear.IsPaintable := by
  refine ⟨Satisfies.clear t, fun id hid => ?_⟩
  obtain ⟨x, ⟨hshows, -⟩, -⟩ := TransGen.head'_iff.mp hid
  exact hshows.get?_ne_none (by simp [clear, empty, get?])

namespace IsPaintable

theorem mount (h : s.IsPaintable) (m : Mount) (par : Option ParamId) :
    (s.mount m par).IsPaintable :=
  ⟨h.fits.mount allows_fits trivial fun _ _ => trivial, h.isLayered.mount m par⟩

theorem load (t : EditorTree) (ps : List Param) : (t.load ps).IsPaintable := by
  have haddRoot : ∀ (s : EditorTree) (p : Param), s.IsPaintable → (s.addRoot p).IsPaintable :=
    fun s p hs => IsPaintable.mount (s := { s with roots := s.roots ++ [p.id] })
      ⟨⟨hs.fits.editor, hs.fits.link⟩, hs.isLayered⟩ _ none
  have hfoldl : ∀ s : EditorTree, s.IsPaintable → (ps.foldl addRoot s).IsPaintable := by
    induction ps with
    | nil => exact fun s hs => hs
    | cons p rest ih => exact fun s hs => ih _ (haddRoot s p hs)
  exact hfoldl _ (isPaintable_clear t)

/-- Taking a definition over paints nothing. -/
theorem syncAncestors (h : s.IsPaintable) (ht : s.syncAncestors id = some t) : t.IsPaintable :=
  ⟨h.fits.syncAncestors (fun _ x _ _ _ he => he.patchEditor x.param) ht,
    h.isLayered.of_sameShown (synced_of_syncAncestors ht).unmoved.sameShown⟩

theorem remount {labelled : Bool} (h : s.IsPaintable) (ht : s.remount p labelled = some t) :
    t.IsPaintable :=
  (h.mount ⟨p, labelled⟩ (s.parent? p.id)).syncAncestors ht

/-- Neither a value that is stored nor a panel that is opened or closed changes what panels show. -/
theorem setEditor {e e' : Editor} (h : s.IsPaintable) (he : s.get? id = some e)
    (hfits : e'.Fits id) (hshown : e'.view.childIds = e.view.childIds) :
    (s.setEditor id e').IsPaintable :=
  ⟨h.fits.setEditor hfits, h.isLayered.of_sameShown (sameShown_setEditor he hshown)⟩

theorem store {e e' : Editor} (h : s.IsPaintable) (he : s.get? id = some e)
    (hstored : e.Stored e') : (s.setEditor id e').IsPaintable :=
  h.setEditor he ((h.fits.editor id e he).store hstored) hstored.childIds_eq

theorem change (h : s.IsPaintable) {c : Change} (ht : s.change c = some t) : t.IsPaintable := by
  cases c with
  | reconcile p =>
    obtain ⟨result, hresult, rfl⟩ := Option.map_eq_some_iff.mp ht
    rw [reconcile_eq] at hresult
    obtain ⟨m?, -, hresult⟩ := Option.bind_eq_some_iff.mp hresult
    cases m? with
    | none =>
      obtain rfl := Option.some.inj hresult
      exact h
    | some m =>
      obtain ⟨t', ht', rfl⟩ := Option.map_eq_some_iff.mp hresult
      exact h.remount ht'
  | interact id interaction =>
    obtain ⟨result, hresult, rfl⟩ := Option.map_eq_some_iff.mp ht
    have hkind := fun e he => (h.fits.editor id e he).kind_eq
    rcases interact_cases hkind interaction with ⟨problem, heq⟩ |
      ⟨e, he, -, -, heq⟩ | ⟨e, e', i, name, c, c', he, -, hstored, -, -, -, heq⟩
    · obtain rfl := Option.some.inj (heq.symm.trans hresult)
      exact h
    · obtain rfl := Option.some.inj (heq.symm.trans hresult)
      have hfits := h.fits.editor id e he
      exact h.setEditor he ⟨hfits.id_eq, hfits.kind_eq⟩ (by simp)
    · obtain ⟨t', ht', rfl⟩ := Option.map_eq_some_iff.mp (heq.symm.trans hresult)
      exact (h.store he hstored).syncAncestors ht'
  | bindValue id val =>
    obtain ⟨result, hresult, rfl⟩ := Option.map_eq_some_iff.mp ht
    have hkind := fun e he => (h.fits.editor id e he).kind_eq
    rcases bindValue_cases hkind val with ⟨problem, heq⟩ |
      ⟨e, e', he, hstored, -, heq⟩
    · obtain rfl := Option.some.inj (heq.symm.trans hresult)
      exact h
    · obtain ⟨t', ht', rfl⟩ := Option.map_eq_some_iff.mp (heq.symm.trans hresult)
      exact (h.store he hstored).syncAncestors ht'

end IsPaintable

/-- A call to a tree. -/
inductive Call where
  /-- Definitions are loaded in place of what is there. -/
  | load (params : List Param)
  /-- A change is made. -/
  | change (c : Change)

/-- The tree after a call. -/
def call (t : EditorTree) : Call → Walk EditorTree
  | .load params => some (t.load params)
  | .change c => t.change c

/-- The tree after calls, one after the other. -/
def calls (t : EditorTree) (calls : List Call) : Walk EditorTree := calls.foldlM call t

theorem IsPaintable.call {call : Call} (h : s.IsPaintable) (ht : s.call call = some t) :
    t.IsPaintable := by
  cases call with
  | load params =>
    obtain rfl := Option.some.inj ht
    exact .load s params
  | change c => exact h.change ht

theorem IsPaintable.calls {calls : List Call} (h : s.IsPaintable) (ht : s.calls calls = some t) :
    t.IsPaintable := by
  induction calls generalizing s with
  | nil =>
    obtain rfl := Option.some.inj ht
    exact h
  | cons c rest ih =>
    rw [EditorTree.calls, List.foldlM_cons] at ht
    obtain ⟨u, hu, hrest⟩ := Option.bind_eq_some_iff.mp ht
    exact ih (h.call hu) hrest

/-! ### Painting -/

/-- A panel has lines if all editors that it refers to have lines, however far these may go. -/
theorem exists_panelLines {lines : Nat → ParamId → Walk (List String)} {bound : Nat}
    {panel : List PanelItem}
    (h : ∀ id ∈ panelIds panel, ∃ l, ∀ n ≥ bound, lines n id = some l) (level index : Nat) :
    ∃ l, ∀ n ≥ bound, panelLines (lines n) level index panel = some l := by
  induction panel generalizing index with
  | nil => exact ⟨[], fun _ _ => rfl⟩
  | cons item rest ih =>
    cases item with
    | editor id =>
      obtain ⟨here, hhere⟩ := h id List.mem_cons_self
      obtain ⟨later, hlater⟩ := ih (fun i hi => h i (List.mem_cons_of_mem _ hi)) (index + 1)
      exact ⟨here ++ later, fun n hn => by simp [panelLines, hhere n hn, hlater n hn]⟩
    | slider s =>
      obtain ⟨later, hlater⟩ := ih h (index + 1)
      exact ⟨_, fun n hn => by simp only [panelLines, hlater n hn]; rfl⟩

theorem length_le_size {path : List ParamId} (hnodup : path.Nodup)
    (hlive : ∀ x ∈ path, t.get? x ≠ none) : path.length ≤ t.size := by
  have hsub : path ⊆ t.editors.keys := fun x hx => by
    obtain ⟨e, he⟩ := Option.ne_none_iff_exists'.mp (hlive x hx)
    exact Std.ExtTreeMap.mem_keys.mpr (mem_editors_of_get?_eq_some he)
  have hlength := (hnodup.subperm hsub).length_le
  rwa [Std.ExtTreeMap.length_keys] at hlength

/-- The lines of an editor can be painted from the end of any way down to it, within as many levels
as there are editors that the way has not met. -/
theorem IsLayered.exists_linesWithin (h : t.IsLayered) {path : List ParamId} {bound : Nat}
    (hnodup : path.Nodup) (hlive : ∀ x ∈ path, t.get? x ≠ none)
    (hpath : ∀ x ∈ path, t.get? id ≠ none → TransGen t.Displays x id)
    (hbound : t.size < path.length + bound) (level : Nat) :
    ∃ lines, ∀ n ≥ bound, t.linesWithin n level id = some lines := by
  induction bound generalizing path id level with
  | zero => exact absurd (length_le_size hnodup hlive) (Nat.not_le_of_gt hbound)
  | succ bound ih =>
    -- A bound that suffices is the successor of one that suffices below the panel.
    suffices hsucc : ∃ lines, ∀ n ≥ bound, t.linesWithin (n + 1) level id = some lines by
      obtain ⟨lines, hlines⟩ := hsucc
      refine ⟨lines, fun n hn => ?_⟩
      obtain ⟨n, rfl⟩ := Nat.exists_eq_add_of_le' (Nat.le_trans (Nat.succ_pos bound) hn)
      exact hlines n (Nat.le_of_succ_le_succ hn)
    simp only [linesWithin]
    cases he : t.get? id with
    | none => exact ⟨_, fun _ _ => rfl⟩
    | some e =>
      have hid : t.get? id ≠ none := by simp [he]
      -- The way has not met this editor, so it may be taken one further.
      have hnotMem : id ∉ path := fun hmem => h id (hpath id hmem hid)
      dsimp only
      split
      · next title panel hwidget =>
        have hbelow : ∀ c ∈ panelIds panel, ∃ l, ∀ n ≥ bound,
            t.linesWithin n (level + 1) c = some l := by
          intro c hc
          have hshows : t.Shows id c := ⟨e, he, by rwa [View.childIds, hwidget]⟩
          refine ih (List.nodup_cons.mpr ⟨hnotMem, hnodup⟩)
            (List.forall_mem_cons.mpr ⟨hid, hlive⟩)
            (List.forall_mem_cons.mpr ⟨fun hc => .single ⟨hshows, hc⟩, fun x hx hc => ?_⟩)
            (by simp only [List.length_cons]; omega) (level + 1)
          exact (hpath x hx hid).tail ⟨hshows, hc⟩
        obtain ⟨below, hlines⟩ := exists_panelLines hbelow (level + 1) 0
        exact ⟨_, fun n hn => by rw [hlines n hn]; rfl⟩
      · exact ⟨_, fun _ _ => rfl⟩

/-- After any loads, redefinitions, interactions and pushed values that come to an end, whatever ids
their definitions repeat or nest below themselves: no editor is shown below itself. The lines of
every id can be painted, and are the same for any number of levels above the number of editors; so
the outline comes to an end. -/
theorem isLayered_of_calls {calls : List Call} (h : empty.calls calls = some t) :
    t.IsLayered ∧
    (∀ id level, ∃ lines, ∀ bound > t.size, t.linesWithin bound level id = some lines) ∧
    ∃ text, t.outline = some text := by
  have hlayered := ((isPaintable_clear empty).calls h).isLayered
  have hlines : ∀ id level, ∃ lines, ∀ bound > t.size,
      t.linesWithin bound level id = some lines := fun id level =>
    hlayered.exists_linesWithin List.nodup_nil (by simp) (by simp) (by simp) level
  have hroots : ∀ roots : List ParamId,
      ∃ l, roots.mapM (t.linesWithin (t.size + 1) 0) = some l := by
    intro roots
    induction roots with
    | nil => exact ⟨[], rfl⟩
    | cons id rest ih =>
      obtain ⟨here, hhere⟩ := hlines id 0
      obtain ⟨later, hlater⟩ := ih
      exact ⟨here :: later, by simp [List.mapM_cons, hhere _ (Nat.lt_succ_self _), hlater]⟩
  obtain ⟨l, hl⟩ := hroots t.roots
  exact ⟨hlayered, hlines, _, by rw [outline, outlineLines, hl]; rfl⟩

/-- A group with the groups of the ids 2 and 3. In the one there is an empty group of the id of the
outermost, in the other a group of that id that has the first of the two within itself. -/
def knottedNoise : Param :=
  .group ⟨1⟩ "noise" [("low", .group ⟨2⟩ "low" [("again", .group ⟨1⟩ "again" [] [])] []),
    ("high", .group ⟨3⟩ "high" [("again", .group ⟨1⟩ "again"
      [("low", .group ⟨2⟩ "low" [("on", .leaf ⟨4⟩ "on" (.flag true))] [])] [])] [])] []

/-- The definition is loaded, and all panels are opened. -/
def openingKnots : List Call :=
  [.load [knottedNoise], .change (.interact ⟨3⟩ .toggle), .change (.interact ⟨1⟩ .toggle),
    .change (.interact ⟨2⟩ .toggle)]

/-- The recorded groups go round; the panels do not. -/
theorem isLayered_openingKnots :
    ∃ t, empty.calls openingKnots = some t ∧ t.parent? ⟨1⟩ = some ⟨3⟩ ∧ t.parent? ⟨3⟩ = some ⟨1⟩ ∧
      t.IsLayered ∧
      t.outline = some "v again  (#1)\n  v low  (#2)\n    on: [x]  (#4)\n" := by
  have hrun : (empty.calls openingKnots).map (fun t =>
      (t.parent? ⟨1⟩, t.parent? ⟨3⟩, t.outline)) = some (some ⟨3⟩, some ⟨1⟩,
        some "v again  (#1)\n  v low  (#2)\n    on: [x]  (#4)\n") := by decide
  obtain ⟨t, ht, hshown⟩ := Option.map_eq_some_iff.mp hrun
  obtain ⟨h1, hrest⟩ := Prod.mk.inj hshown
  obtain ⟨h3, houtline⟩ := Prod.mk.inj hrest
  exact ⟨t, ht, h1, h3, (isLayered_of_calls ht).1, houtline⟩

end EditorTree

end LiveTuner
