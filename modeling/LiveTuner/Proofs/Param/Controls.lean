import LiveTuner.Proofs.Editor.Edit
import LiveTuner.Proofs.Param.Nodes

/-!
# The controls in a parameter

A parameter has as many controls as it has nodes that are no groups. What holds of all of them is
kept when a copy within the parameter is exchanged for a parameter of which it holds, too.

## Main definitions

* `Param.AllControls` — something holds of every control, with the id it stands at

## Main results

* `Param.AllControls.replaceDescendant` — it is kept when a copy is exchanged
-/

namespace LiveTuner.Param

/-- `F` holds of every control of the parameter and of those below it, with the id it stands at. -/
def AllControls (F : ParamId → Control → Prop) (p : Param) : Prop :=
  ∀ q ∈ p.nodes, ∀ c, q.control? = some c → F q.id c

variable {F : ParamId → Control → Prop} {p q r : Param} {i : ParamId} {name : String}
  {control : Control} {params : List (String × Param)} {hidden : List String}

theorem allControls_leaf_iff : (leaf i name control).AllControls F ↔ F i control := by
  simp [AllControls, nodes, control?]

theorem allControls_group_iff :
    (group i name params hidden).AllControls F ↔ ∀ c ∈ params.map Prod.snd, c.AllControls F := by
  constructor
  · intro h c hc q hq
    exact h q (mem_nodes_iff.mpr (Or.inr ⟨c, hc, hq⟩))
  · intro h q hq
    rcases mem_nodes_iff.mp hq with rfl | ⟨c, hc, hqc⟩
    · exact fun _ hnone => nomatch hnone
    · exact h c hc q hqc

theorem AllControls.of_mem_nodes (h : p.AllControls F) (hq : q ∈ p.nodes) : q.AllControls F :=
  fun x hx => h x (mem_nodes_trans hq hx)

/-- An exchanged copy brings the controls of its replacement, and no others. -/
theorem AllControls.replaceDescendant? (h : p.AllControls F) (hr : r.AllControls F)
    (hreplaced : p.replaceDescendant? r = some q) : q.AllControls F := by
  induction p using Param.induction generalizing q with
  | leaf i name control => cases hreplaced
  | group i name params hidden ih =>
    obtain ⟨params', hparams', rfl⟩ := Option.map_eq_some_iff.mp hreplaced
    rw [allControls_group_iff] at h ⊢
    intro c hc
    rcases (members_of_replaceAmong? hparams').2 c hc with hc | rfl | ⟨m, hm, hmc⟩
    · exact h c hc
    · exact hr
    · exact ih m hm (h m hm) hmc

theorem AllControls.replaceDescendant (h : p.AllControls F) (hr : r.AllControls F) :
    (p.replaceDescendant r).AllControls F := by
  rw [Param.replaceDescendant]
  cases hreplaced : p.replaceDescendant? r with
  | none => exact h
  | some q => exact h.replaceDescendant? hr hreplaced

end LiveTuner.Param
