import Std.Data.ExtTreeMap

/-!
# Parameter ids

Every parameter of a node has an integer id. The registry and the editors are maps keyed by ids,
so ids carry the order of their numbers.

## Main definitions

* `ParamId` — an id
* `IdMap` — a finite map from ids
-/

namespace LiveTuner

/-- The id of a parameter. -/
structure ParamId where
  /-- The number a node gave to the parameter. -/
  number : Int64
deriving DecidableEq, Repr, Inhabited

namespace ParamId

instance : Ord ParamId := ⟨fun a b => compare a.number b.number⟩

instance : Std.TransOrd ParamId where
  eq_swap := @fun a b => @Std.OrientedCmp.eq_swap Int64 compare _ a.number b.number
  isLE_trans := @fun a b c => @Std.TransCmp.isLE_trans Int64 compare _ a.number b.number c.number

instance : Std.LawfulEqOrd ParamId where
  eq_of_compare {a b} h := by
    have : a.number = b.number :=
      @Std.LawfulEqCmp.eq_of_compare Int64 compare _ _ _ h
    cases a; cases b; simp_all

/-- The id as it stands in messages. -/
def text (id : ParamId) : String := s!"#{id.number.toInt}"

end ParamId

/-- A finite map from ids, in which two maps with the same entries are equal. -/
abbrev IdMap (α : Type) := Std.ExtTreeMap ParamId α

end LiveTuner
