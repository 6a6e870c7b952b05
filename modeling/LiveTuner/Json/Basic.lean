import LiveTuner.Binary64.Basic

/-!
# Data values

Nodes describe their parameters, and the program its settings, by data values of the kind JSON
knows. A number is an integer exactly when it was written as one and fits 64 bits; every other
number is a finite double-precision value. Objects keep the order in which their keys first came.

## Main definitions

* `WireInteger` — an integer that fits 64 bits, with or without a sign
* `Json` — a data value
* `Json.put` — setting a key of an object: a key keeps its place and takes the last value
* `Json.WellFormed` — no object holds a key twice
-/

namespace LiveTuner

/-- An integer that fits 64 bits, with or without a sign. -/
structure WireInteger where
  /-- The integer. -/
  val : Int
  /-- It is not below the least integer with a sign. -/
  lower : -0x8000_0000_0000_0000 ≤ val
  /-- It is below the end of the integers without a sign. -/
  upper : val < 0x1_0000_0000_0000_0000
deriving DecidableEq, Repr

namespace WireInteger

/-- An integer with a sign, of 64 bits. -/
def ofInt64 (n : Int64) : WireInteger where
  val := n.toInt
  lower := n.le_toInt
  upper := Int.lt_trans n.toInt_lt (by decide)

/-- An integer without a sign, of 64 bits. -/
def ofUInt64 (n : UInt64) : WireInteger where
  val := n.toNat
  lower := by omega
  upper := by have := n.toNat_lt; omega

/-- The integer as one with a sign, if it fits. -/
def toInt64? (n : WireInteger) : Option Int64 :=
  if n.val < 0x8000_0000_0000_0000 then some (Int64.ofInt n.val) else none

theorem toInt64?_ofInt64 (n : Int64) : (ofInt64 n).toInt64? = some n := by
  have h : (ofInt64 n).val < 0x8000_0000_0000_0000 := n.toInt_lt
  simp only [toInt64?, h, if_true]
  simp [ofInt64]

end WireInteger

/-- A finite double-precision value. -/
abbrev FiniteReal := { x : Binary64 // x.isFinite = true }

/-- A data value. -/
inductive Json where
  /-- No value. -/
  | null
  /-- A truth value. -/
  | bool (b : Bool)
  /-- A number written as an integer. -/
  | integer (n : WireInteger)
  /-- Any other number. -/
  | real (x : FiniteReal)
  /-- A text. -/
  | string (s : String)
  /-- A sequence of values. -/
  | array (items : List Json)
  /-- Values under keys, in the order of the keys' first appearance. -/
  | object (members : List (String × Json))

namespace Json

instance : Inhabited Json := ⟨null⟩

/-- A double-precision value as data, which has neither infinities nor values that are no number:
those are lost. -/
def ofReal (x : Binary64) : Json := if h : x.isFinite = true then real ⟨x, h⟩ else null

/-- An integer with a sign as data. -/
def ofInt64 (n : Int64) : Json := integer (.ofInt64 n)

/-- The members with `key` set to `value`: in its place if the key is there, else at the end. -/
def put (key : String) (value : Json) : List (String × Json) → List (String × Json)
  | [] => [(key, value)]
  | (k, v) :: rest => if k = key then (k, value) :: rest else (k, v) :: put key value rest

/-- The value under a key. -/
def member? (key : String) (members : List (String × Json)) : Option Json :=
  members.lookup key

/-- A number as a double-precision value, rounded if it is a large integer. -/
def toReal? : Json → Option Binary64
  | integer n => some (.ofInt n.val)
  | real x => some x.val
  | _ => none

/-- An integer that fits 64 bits with a sign. -/
def toInt64? : Json → Option Int64
  | integer n => n.toInt64?
  | _ => none

/-- Whether the value is a number written as an integer. -/
def isInteger : Json → Bool
  | integer _ => true
  | _ => false

/-- Whether the value is an object. -/
def isObject : Json → Bool
  | object _ => true
  | _ => false

mutual

/-- No object within the value holds a key twice. -/
def WellFormed : Json → Prop
  | array items => WellFormedItems items
  | object members => (members.map Prod.fst).Nodup ∧ WellFormedMembers members
  | _ => True

/-- Every value is well-formed. -/
def WellFormedItems : List Json → Prop
  | [] => True
  | v :: rest => WellFormed v ∧ WellFormedItems rest

/-- Every value under a key is well-formed. -/
def WellFormedMembers : List (String × Json) → Prop
  | [] => True
  | (_, v) :: rest => WellFormed v ∧ WellFormedMembers rest

end

theorem mem_keys_put {key k : String} {value : Json} {members : List (String × Json)} :
    k ∈ (put key value members).map Prod.fst ↔ k = key ∨ k ∈ members.map Prod.fst := by
  induction members with
  | nil => simp [put]
  | cons m rest ih =>
    obtain ⟨k', v⟩ := m
    by_cases h : k' = key
    · simp [put, h]
    · simp only [put, h, if_false, List.map_cons, List.mem_cons, ih]
      constructor
      · rintro (rfl | rfl | hk) <;> simp_all
      · rintro (rfl | rfl | hk) <;> simp_all

/-- Setting a key keeps the keys distinct. -/
theorem nodup_keys_put {key : String} {value : Json} {members : List (String × Json)}
    (h : (members.map Prod.fst).Nodup) : ((put key value members).map Prod.fst).Nodup := by
  induction members with
  | nil => simp [put]
  | cons m rest ih =>
    obtain ⟨k', v⟩ := m
    simp only [List.map_cons, List.nodup_cons] at h
    by_cases hk : k' = key
    · subst hk
      simp only [put, if_true, List.map_cons, List.nodup_cons]
      exact h
    · simp only [put, hk, if_false, List.map_cons, List.nodup_cons]
      exact ⟨fun hm => (mem_keys_put.1 hm).elim hk h.1, ih h.2⟩

end Json

end LiveTuner
