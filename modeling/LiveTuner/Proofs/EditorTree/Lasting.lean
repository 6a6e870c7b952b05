import LiveTuner.Proofs.EditorTree.Layered

/-!
# What lasts in a tree

A change to a tree comes down to few things that happen to single editors: one is mounted, takes a
value, opens or closes its panel, or exchanges a copy in its definition. What holds of every editor
and outlasts each of these holds after any change, whatever is redefined, pushed or edited.

## Main definitions

* `EditorTree.Outlasts` — what becomes of a single editor ends nothing

## Main results

* `EditorTree.Satisfies.change` — then no change to a tree does
* `EditorTree.Satisfies.calls` — nor do any calls, if `Q` holds of every definition
-/

namespace LiveTuner.EditorTree

variable {P : ParamId → Editor → Prop} {L : ParamId → ParamId → Prop} {Q : Param → Prop}
  {t t' : EditorTree} {p : Param} {m : Mount} {c : Change} {id : ParamId} {val : Value}
  {interaction : Interaction}

/-- Whatever becomes of an editor of which `P` holds, other than being mounted, `P` goes on holding,
and `Q` of the definition to be mounted in its place. -/
structure Outlasts (P : ParamId → Editor → Prop) (Q : Param → Prop) : Prop where
  /-- The editor is bound to a parameter of its kind. -/
  kind_eq : ∀ id e, P id e → e.kind = e.param.kind
  /-- It may take over the definition of another one. -/
  patched : ∀ z x id e, P z x → P id e → P id (patchEditor x.param e)
  /-- It may take a value. -/
  stored : ∀ id e e', P id e → e.Stored e' → P id e'
  /-- It may open or close its panel. -/
  toggled : ∀ id e expanded, P id e → Editor.hasPanel e.kind = true → P id (e.setExpanded expanded)
  /-- A definition may come in that it holds a copy of. -/
  hosted : ∀ id e p, P id e → Q p → Q (e.param.replaceDescendant p)

/-- What is mounted for a definition is that definition, or what an editor is bound to with the copy
of it exchanged. -/
theorem param_of_mountFor (h : t.mountFor p = some (some m)) :
    m.param = p ∨ ∃ id e, t.get? id = some e ∧ m.param = e.param.replaceDescendant p := by
  rw [mountFor] at h
  split at h
  · cases h
    exact Or.inl rfl
  · obtain ⟨host?, -, h⟩ := Option.map_eq_some_iff.mp h
    obtain ⟨host, -, h⟩ := Option.bind_eq_some_iff.mp h
    obtain ⟨e, he, rfl⟩ := Option.map_eq_some_iff.mp h
    exact Or.inr ⟨host, e, he, rfl⟩

namespace Satisfies

theorem reconcile (h : t.Satisfies P L) (hallows : Allows P L Q) (hlasts : Outlasts P Q) (hp : Q p)
    (ht : t.reconcile p = some (.ok t')) : t'.Satisfies P L := by
  rw [reconcile_eq] at ht
  obtain ⟨m?, hmount, ht⟩ := Option.bind_eq_some_iff.mp ht
  cases m? with
  | none => cases ht
  | some m =>
    obtain ⟨t₂, hremount, ht⟩ := Option.map_eq_some_iff.mp ht
    obtain rfl := Except.ok.inj ht
    -- For an id without an editor, not `p` is mounted but its host's definition with `p` in it.
    have hm : Q m.param := by
      rcases param_of_mountFor hmount with heq | ⟨id, e, he, heq⟩
      · exact heq ▸ hp
      · rw [heq]
        exact hlasts.hosted id e p (h.editor id e he) hp
    have hmounted : (t.mount m (t.parent? m.param.id)).Satisfies P L :=
      h.mount hallows hm fun g hg => h.link m.param.id g hg
    refine hmounted.syncAncestors ?_ hremount
    exact fun z x hx id e he => hlasts.patched z x id e hx he

theorem interact (h : t.Satisfies P L) (hlasts : Outlasts P Q) {val? : Option Value}
    (ht : t.interact id interaction = some (.ok (t', val?))) : t'.Satisfies P L := by
  have hkind := fun e he => hlasts.kind_eq id e (h.editor id e he)
  rcases interact_cases hkind interaction with ⟨problem, heq⟩ |
    ⟨e, he, hpanel, -, heq⟩ | ⟨e, e', i, name, c, c', he, -, hstored, -, -, -, heq⟩
  · cases heq.symm.trans ht
  · cases heq.symm.trans ht
    exact h.setEditor (hlasts.toggled id e _ (h.editor id e he) hpanel)
  · obtain ⟨t₂, ht₂, heq⟩ := Option.map_eq_some_iff.mp (heq.symm.trans ht)
    cases heq
    refine (h.setEditor (hlasts.stored id e e' (h.editor id e he) hstored)).syncAncestors ?_ ht₂
    exact fun z x hx id e he => hlasts.patched z x id e hx he

theorem bindValue (h : t.Satisfies P L) (hlasts : Outlasts P Q)
    (ht : t.bindValue id val = some (.ok t')) : t'.Satisfies P L := by
  have hkind := fun e he => hlasts.kind_eq id e (h.editor id e he)
  rcases bindValue_cases hkind val with ⟨problem, heq⟩ | ⟨e, e', he, hstored, -, heq⟩
  · cases heq.symm.trans ht
  · obtain ⟨t₂, ht₂, heq⟩ := Option.map_eq_some_iff.mp (heq.symm.trans ht)
    cases heq
    refine (h.setEditor (hlasts.stored id e e' (h.editor id e he) hstored)).syncAncestors ?_ ht₂
    exact fun z x hx id e he => hlasts.patched z x id e hx he

/-- What outlasts all that becomes of single editors outlasts every change to a tree, if `Q` holds
of a definition that comes in. -/
theorem change (h : t.Satisfies P L) (hallows : Allows P L Q) (hlasts : Outlasts P Q)
    (hc : ∀ p, c = .reconcile p → Q p) (ht : t.change c = some t') : t'.Satisfies P L := by
  cases c with
  | reconcile p =>
    obtain ⟨result, hresult, rfl⟩ := Option.map_eq_some_iff.mp ht
    cases result with
    | error problem => exact h
    | ok t₂ => exact h.reconcile hallows hlasts (hc p rfl) hresult
  | interact id interaction =>
    obtain ⟨result, hresult, rfl⟩ := Option.map_eq_some_iff.mp ht
    cases result with
    | error problem => exact h
    | ok edited => exact h.interact hlasts hresult
  | bindValue id val =>
    obtain ⟨result, hresult, rfl⟩ := Option.map_eq_some_iff.mp ht
    cases result with
    | error problem => exact h
    | ok t₂ => exact h.bindValue hlasts hresult

/-- What holds of new editors whatever they are bound to, and outlasts all that becomes of them,
holds after any calls. -/
theorem calls {calls : List Call} (h : t.Satisfies P L) (hallows : Allows P L Q)
    (hlasts : Outlasts P Q) (hQ : ∀ p, Q p) (ht : t.calls calls = some t') : t'.Satisfies P L := by
  induction calls generalizing t with
  | nil =>
    obtain rfl := Option.some.inj ht
    exact h
  | cons c rest ih =>
    rw [EditorTree.calls, List.foldlM_cons] at ht
    obtain ⟨u, hu, hrest⟩ := Option.bind_eq_some_iff.mp ht
    refine ih ?_ hrest
    cases c with
    | load params =>
      obtain rfl := Option.some.inj hu
      exact .load hallows (fun p _ => hQ p) t
    | change c => exact h.change hallows hlasts (fun p _ => hQ p) hu

end Satisfies

end LiveTuner.EditorTree
