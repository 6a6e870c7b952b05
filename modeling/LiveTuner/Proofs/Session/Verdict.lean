import LiveTuner.Proofs.Editor.InPlace
import LiveTuner.Proofs.Session.Rejection

/-!
# Two judges of a value

A pushed value comes to an editor and to the registry, and each of them judges it by a table of its
own. A session asks the editor and does not listen to the registry afterwards. So whenever the two
judge differently, what is shown parts from what is known. They never do: both take exactly the
values that fit the definition, and what they make of it is the same.

## Main definitions

* `Registry.setValueInPlace` — the value of an id is changed, step by step

## Main results

* `Registry.outcome_setValueInPlace` — what the steps come to
* `Registry.setValue?_judges_as_editor` — the registry and the editor judge alike
-/

namespace LiveTuner.Registry

open InPlace

variable {r : Registry} {p : Param} {id : ParamId} {val : Value}

/-- Changes the value of an id, first in its entry and then in the copies that other entries hold.
The answer is whether the id is known and the value fits. -/
def setValueInPlace (id : ParamId) (val : Value) : InPlace Registry Bool := do
  let r ← get
  match r.get? id with
  | none => pure false
  | some p =>
    match p.setValue? val with
    | none => pure false
    | some p =>
      modify fun r => r.insert p
      modify fun r => r.patchCopies p
      pure true

/-- Where the answer is no, nothing has been written. -/
theorem outcome_setValueInPlace (id : ParamId) (val : Value) (r : Registry) :
    (setValueInPlace id val).outcome r =
      some (.ok (r.setValue? id val).isSome, (r.setValue? id val).getD r) := by
  rw [setValueInPlace, outcome_get_bind, setValue?]
  cases r.get? id with
  | none => rfl
  | some p =>
    simp only [Option.bind_eq_bind, Option.bind_some]
    cases p.setValue? val with
    | none => rfl
    | some p' => rfl

/-- The registry takes what its entry takes. -/
theorem get?_setValue? {p' : Param} (hp : r.get? p.id = some p) (hset : p.setValue? val = some p') :
    ∃ r', r.setValue? p.id val = some r' ∧ r'.get? p.id = some p' := by
  obtain ⟨hid, -⟩ := Forest.setValue?_eq_some hset
  refine ⟨(r.insert p').patchCopies p', by simp [setValue?, hp, hset], ?_⟩
  rw [get?_patchCopies, get?_insert, if_pos hid]
  simp [hid]

/-- A registry has a definition as the entry of its id, and an editor has been made for the same
definition. They are given the same value. If it fits the definition, both take it, and the entry is
then the definition that the editor is bound to. If it does not, neither takes it, and carried out
step by step both are left as they were. -/
theorem setValue?_judges_as_editor (hp : r.get? p.id = some p) (labelled : Bool) (serial : Nat)
    (val : Value) :
    (val.Fits p ∧ ∃ r' e', r.setValue? p.id val = some r' ∧
      (Editor.create p labelled serial).bindValue val = .ok e' ∧
      (setValueInPlace p.id val).outcome r = some (.ok true, r') ∧
      (Editor.bindValueInPlace val).outcome (.create p labelled serial) = some (.ok (), e') ∧
      r'.get? p.id = some e'.param) ∨
    (¬ val.Fits p ∧ ∃ problem, r.setValue? p.id val = none ∧
      (Editor.create p labelled serial).bindValue val = .error problem ∧
      (setValueInPlace p.id val).outcome r = some (.ok false, r) ∧
      (Editor.bindValueInPlace val).outcome (.create p labelled serial) =
        some (.error problem, .create p labelled serial)) := by
  have hsteps := Editor.carriesOut_bindValueInPlace val
  have hregistry := outcome_setValueInPlace p.id val r
  by_cases hfits : val.Fits p
  · -- The editor stores what the parameter makes of the value, and so does the registry.
    refine Or.inl ⟨hfits, ?_⟩
    obtain ⟨e', he'⟩ :=
      Editor.exists_bindValue_of_fits (e := .create p labelled serial) rfl hfits
    obtain ⟨-, hset⟩ := Editor.bindValue_eq_ok rfl he'
    obtain ⟨r', hr', hentry⟩ := get?_setValue? hp hset
    rw [hr'] at hregistry
    exact ⟨r', e', hr', he', hregistry, hsteps.outcome_ok (by rw [he']; rfl), hentry⟩
  · refine Or.inr ⟨hfits, ?_⟩
    have hrefused := Editor.bindValue_of_not_fits (e := .create p labelled serial) rfl hfits
    have hset : r.setValue? p.id val = none := by
      simp [setValue?, hp, Param.setValue?_eq_none_iff.mpr hfits]
    rw [hset] at hregistry
    exact ⟨_, hset, hrefused, hregistry, hsteps.outcome_error (by rw [hrefused]; rfl)⟩

/-- A value outside the bounds is taken by both. -/
theorem setValue?_judges_sampleFader :
    (empty.insert Editor.sampleFader).get? ⟨2⟩ = some Editor.sampleFader ∧
    ∃ r' e', (empty.insert Editor.sampleFader).setValue? ⟨2⟩ (.ints [3, 9]) = some r' ∧
      (Editor.create Editor.sampleFader true 1).bindValue (.ints [3, 9]) = .ok e' ∧
      r'.get? ⟨2⟩ = some e'.param := by
  have hp : (empty.insert Editor.sampleFader).get? ⟨2⟩ = some Editor.sampleFader := by
    rw [get?_insert]
    exact if_pos rfl
  have hfits : (Value.ints [3, 9]).Fits Editor.sampleFader := by
    have hreals : (Value.ints [3, 9]).toReals? = some [.ofInt 3, .ofInt 9] := rfl
    refine .vector hreals ?_
    simp
  refine ⟨hp, ?_⟩
  rcases setValue?_judges_as_editor (p := Editor.sampleFader) hp true 1 (.ints [3, 9]) with
    ⟨-, r', e', hr', he', -, -, hentry⟩ | ⟨hnot, -⟩
  · exact ⟨r', e', hr', he', hentry⟩
  · exact absurd hfits hnot

end LiveTuner.Registry
