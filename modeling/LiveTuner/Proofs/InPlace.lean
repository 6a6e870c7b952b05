import LiveTuner.EditorTree.Change

/-!
# Changes in place

An edit is a function: it yields the state that the edit leads to, or a problem and no state at all.
Carried out in place, the same edit reads and writes one state as it goes. If it is refused halfway,
nothing takes back what has been written by then. That a refused edit changes nothing then depends
on the order of its steps: everything that can be refused has to be asked before the first store.

This file states when a sequence of steps carries a function out. The edits themselves are written
out as such sequences where they are studied.

## Main definitions

* `InPlace` — a sequence of steps on one state
* `InPlace.outcome` — its answer, and the state that it leaves
* `InPlace.within` — steps on a part of the state
* `InPlace.CarriesOut` — the steps come to what a function yields, and to no change where it refuses

## Main results

* `InPlace.CarriesOut.outcome_ok`, `InPlace.CarriesOut.outcome_error` — what is left in either case
* `InPlace.CarriesOut.cases` — there is no other case
-/

namespace LiveTuner

/-- Steps that read and write one state and may be refused. What they have written stays written
then. Steps may also never come to an end. -/
abbrev InPlace (σ α : Type) := ExceptT Problem (StateT σ Option) α

namespace InPlace

variable {σ τ α β : Type}

/-- The answer of the steps, and the state that they leave. -/
def outcome (x : InPlace σ α) (s : σ) : Walk (Except Problem α × σ) := StateT.run (ExceptT.run x) s

/-- Steps on a part of the state. What they leave of it is put back, refused or not. -/
def within (part : σ → τ) (put : σ → τ → σ) (x : InPlace τ α) : InPlace σ α :=
  ExceptT.mk fun s => (x.outcome (part s)).map fun (answer, t) => (answer, put s t)

/-- A step that may not come to an end. -/
def walk (f : σ → Walk σ) : InPlace σ Unit := ExceptT.mk fun s => (f s).map fun s => (.ok (), s)

/-! ### Steps -/

@[simp] theorem outcome_pure (a : α) (s : σ) : (pure a : InPlace σ α).outcome s = some (.ok a, s) :=
  rfl

@[simp] theorem outcome_throw (problem : Problem) (s : σ) :
    (throw problem : InPlace σ α).outcome s = some (.error problem, s) := rfl

@[simp] theorem outcome_modify (f : σ → σ) (s : σ) :
    (modify f : InPlace σ Unit).outcome s = some (.ok (), f s) := rfl

@[simp] theorem outcome_get_bind (f : σ → InPlace σ β) (s : σ) :
    (get >>= f).outcome s = (f s).outcome s := rfl

/-- A refused step is the last one. -/
@[simp] theorem outcome_bind (x : InPlace σ α) (f : α → InPlace σ β) (s : σ) :
    (x >>= f).outcome s = (x.outcome s).bind fun
      | (.ok a, s') => (f a).outcome s'
      | (.error problem, s') => some (.error problem, s') := by
  -- Run on a state, the steps answer first, and what comes next depends on the answer alone.
  change ((x.outcome s).bind fun r => (ExceptT.bindCont f r.1).run r.2) = _
  congr 1
  funext ⟨answer, s'⟩
  cases answer <;> rfl

@[simp] theorem outcome_within (part : σ → τ) (put : σ → τ → σ) (x : InPlace τ α) (s : σ) :
    (within part put x).outcome s =
      (x.outcome (part s)).map fun (answer, t) => (answer, put s t) := rfl

@[simp] theorem outcome_walk (f : σ → Walk σ) (s : σ) :
    (walk f).outcome s = (f s).map fun s' => (.ok (), s') := rfl

/-! ### Steps and functions -/

/-- The answer that a function gives, and the state then: the present one where it refuses. -/
def settle (s : σ) : Except Problem (σ × α) → Except Problem α × σ
  | .ok (s', a) => (.ok a, s')
  | .error problem => (.error problem, s)

@[simp] theorem settle_ok (s s' : σ) (a : α) : settle s (.ok (s', a)) = (.ok a, s') := rfl

@[simp] theorem settle_error (s : σ) (problem : Problem) :
    settle s (.error problem : Except Problem (σ × α)) = (.error problem, s) := rfl

/-- The steps come to what the function yields. Where it refuses, they leave the state as it was. -/
def CarriesOut (x : InPlace σ α) (f : σ → Walk (Except Problem (σ × α))) : Prop :=
  ∀ s, x.outcome s = (f s).map (settle s)

namespace CarriesOut

variable {x : InPlace σ α} {f : σ → Walk (Except Problem (σ × α))} {s s' : σ}

theorem outcome_ok {a : α} (h : x.CarriesOut f) (hf : f s = some (.ok (s', a))) :
    x.outcome s = some (.ok a, s') := by
  rw [h s, hf]
  rfl

theorem outcome_error {problem : Problem} (h : x.CarriesOut f)
    (hf : f s = some (.error problem)) : x.outcome s = some (.error problem, s) := by
  rw [h s, hf]
  rfl

/-- Steps that come to an end have done what the function yields, or nothing. -/
theorem cases {answer : Except Problem α} (h : x.CarriesOut f)
    (hx : x.outcome s = some (answer, s')) :
    (∃ a, answer = .ok a ∧ f s = some (.ok (s', a))) ∨
    ∃ problem, answer = .error problem ∧ f s = some (.error problem) ∧ s' = s := by
  rw [h s] at hx
  obtain ⟨result, hresult, hsettle⟩ := Option.map_eq_some_iff.mp hx
  rcases result with problem | ⟨s₁, a⟩
  · obtain ⟨rfl, rfl⟩ := Prod.mk.inj hsettle
    exact Or.inr ⟨problem, rfl, hresult, rfl⟩
  · obtain ⟨rfl, rfl⟩ := Prod.mk.inj hsettle
    exact Or.inl ⟨a, rfl, hresult⟩

end CarriesOut

end InPlace

end LiveTuner
