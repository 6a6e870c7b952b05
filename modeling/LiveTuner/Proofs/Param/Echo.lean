import LiveTuner.Proofs.Param.Sending

/-!
# Integers that come back

An integer that a node sends becomes a double-precision number, and an integer again when it is
sent back. On the way it may have been rounded. A number that may stand for several integers is sent
as it is, so that no integer comes back as another one.

The test for this is made on the number, after rounding, and lets 2^53 pass. But 2^53 + 1 is rounded
to 2^53, too. So of all integers this one, with either sign, comes back as another one.

## Main definitions

* `Value.Echoes`, `Value.EchoesAll` — a value is an integer or its rounding, and all of them are

## Main results

* `Definition.echoes_described_iff` — every other integer comes back as itself or as the number it
  is rounded to
-/

namespace LiveTuner

variable {n : Int} {ns : List Int} {x : Binary64}

namespace Value

/-- The value is the integer, or the number that the integer is rounded to. -/
inductive Echoes (n : Int) : Value → Prop where
  /-- The integer. -/
  | int {i : Int64} (h : i.toInt = n) : Echoes n (.int i)
  /-- The number. -/
  | real : Echoes n (.real (.ofInt n))

/-- The values are the integers, or the numbers that the integers are rounded to. -/
inductive EchoesAll (ns : List Int) : Value → Prop where
  /-- The integers. -/
  | ints {is : List Int64} (h : is.map Int64.toInt = ns) : EchoesAll ns (.ints is)
  /-- The numbers. -/
  | reals : EchoesAll ns (.reals (ns.map .ofInt))

theorem echoes_int_iff {i : Int64} : (int i).Echoes n ↔ i.toInt = n :=
  ⟨fun h => by cases h; assumption, .int⟩

theorem echoesAll_ints_iff {is : List Int64} : (ints is).EchoesAll ns ↔ is.map Int64.toInt = ns :=
  ⟨fun h => by cases h; assumption, .ints⟩

end Value

/-! ### Rounded integers -/

/-- Rounded integers are sent as integers up to the next one after 2^53. -/
theorem sentWhole_ofInt_iff : sentWhole (.ofInt n) true = true ↔ n.natAbs ≤ maxExactWhole + 1 := by
  rw [sentWhole_iff, Binary64.exists_isExactInt_ofInt_iff]
  exact and_iff_right rfl

/-- All of these but the last one are sent as what they are. -/
theorem toInt_wholeInt64_ofInt_eq_iff (h : n.natAbs ≤ maxExactWhole + 1) :
    (wholeInt64 (.ofInt n)).toInt = n ↔ n.natAbs ≠ maxExactWhole + 1 := by
  obtain ⟨k, hk⟩ := Binary64.exists_isExactInt_ofInt_iff.mpr h
  rw [toInt_wholeInt64 hk]
  exact Binary64.eq_iff_of_isExactInt_ofInt hk

/-- Such a scalar comes back as another integer exactly if its integer is next to 2^53. -/
theorem Scalar.echoes_iff {s : Scalar} (hval : s.val = .ofInt n) (hintegral : s.integral = true) :
    s.value.Echoes n ↔ n.natAbs ≠ maxExactWhole + 1 := by
  rw [value, hintegral]
  split
  · next hsent =>
    rw [hval] at hsent ⊢
    rw [Value.echoes_int_iff]
    exact toInt_wholeInt64_ofInt_eq_iff (sentWhole_ofInt_iff.mp hsent)
  · next hsent =>
    rw [hval] at hsent ⊢
    rw [sentWhole_ofInt_iff] at hsent
    exact ⟨fun _ heq => hsent (Nat.le_of_eq heq), fun _ => .real⟩

/-- A vector of rounded integers is sent as integers if none of them is further away. -/
theorem ScalarVector.all_sentWhole_iff {v : ScalarVector} (hval : v.val = ns.map .ofInt)
    (hintegral : v.integral = true) :
    v.val.all (sentWhole · v.integral) = true ↔ ∀ n ∈ ns, n.natAbs ≤ maxExactWhole + 1 := by
  simp only [List.all_eq_true, hval, hintegral, List.forall_mem_map, sentWhole_ofInt_iff]

/-- One integer that is further away keeps all of a vector from being sent as integers. -/
theorem ScalarVector.echoesAll_iff {v : ScalarVector} (hval : v.val = ns.map .ofInt)
    (hintegral : v.integral = true) :
    v.value.EchoesAll ns ↔ (∀ n ∈ ns, n.natAbs ≤ maxExactWhole + 1) →
      ∀ n ∈ ns, n.natAbs ≠ maxExactWhole + 1 := by
  have hall := all_sentWhole_iff hval hintegral
  rw [value]
  split
  · next hsent =>
    have hle := hall.mp hsent
    have hback : ns.map (Int64.toInt ∘ wholeInt64 ∘ Binary64.ofInt) = ns.map id ↔
        ∀ n ∈ ns, n.natAbs ≠ maxExactWhole + 1 :=
      List.map_inj_left.trans
        (forall₂_congr fun n hn => toInt_wholeInt64_ofInt_eq_iff (hle n hn))
    rw [Value.echoesAll_ints_iff, forall_prop_of_true hle, ← hback, hval, List.map_map,
      List.map_map, List.map_id]
    rfl
  · next hsent =>
    rw [hall] at hsent
    rw [hval]
    exact ⟨fun _ hle => absurd hle hsent, fun _ => .reals⟩

namespace Definition

variable {d : Definition}

/-- A definition that describes a scalar is resolved to one with the number that was sent. -/
theorem exists_scalar_of_describes (h : d.Describes .scalar) :
    ∃ s, d.resolve = .ok (.leaf d.id d.name (.scalar s)) ∧
      scalarValue d.val = .ok (s.val, s.integral) := by
  have hparams : d.params = none := by cases h; assumption
  obtain ⟨c, hc, hkind⟩ := (describes_iff_of_params_eq_none hparams).mp h
  cases c with
  | scalar s =>
    refine ⟨s, ?_, scalarValue_of_control hc⟩
    rw [resolve, hparams, hc]
    rfl
  | choice | vector | flag | text | unresolved => cases hkind

/-- A definition that describes a vector is resolved to one with the numbers that were sent. -/
theorem exists_vector_of_describes (h : d.Describes .vector) :
    ∃ v items, d.resolve = .ok (.leaf d.id d.name (.vector v)) ∧ d.val = .array items ∧
      List.Forall₂ (fun item x => item.toReal? = some x) items v.val ∧
      v.integral = items.all Json.isInteger := by
  have hparams : d.params = none := by cases h; assumption
  obtain ⟨c, hc, hkind⟩ := (describes_iff_of_params_eq_none hparams).mp h
  cases c with
  | vector v =>
    obtain ⟨items, hval, hitems, hintegral⟩ := items_of_control hc
    refine ⟨v, items, ?_, hval, hitems, hintegral⟩
    rw [resolve, hparams, hc]
    rfl
  | choice | scalar | flag | text | unresolved => cases hkind

/-- Every integer that a node sends comes back as that integer or as the number it is rounded to,
but for 2^53 + 1 and its negative. An integer of a scalar comes back so unless it is one of these.
The integers of a vector come back so together, unless one of them is one of these and none is
further away. -/
theorem echoes_described_iff (d : Definition) :
    (∀ n, d.Describes .scalar → d.val = .integer n →
      ∃ p, d.resolve = .ok p ∧ (p.value.Echoes n.val ↔ n.val.natAbs ≠ maxExactWhole + 1)) ∧
    ∀ ns : List WireInteger, d.Describes .vector → d.val = .array (ns.map .integer) →
      ∃ p, d.resolve = .ok p ∧ (p.value.EchoesAll (ns.map WireInteger.val) ↔
        (∀ n ∈ ns, n.val.natAbs ≤ maxExactWhole + 1) →
          ∀ n ∈ ns, n.val.natAbs ≠ maxExactWhole + 1) := by
  constructor
  · intro n hd hval
    obtain ⟨s, hs, hsent⟩ := exists_scalar_of_describes hd
    rw [hval] at hsent
    obtain ⟨hx, hintegral⟩ := Prod.mk.inj (Except.ok.inj hsent)
    exact ⟨_, hs, Scalar.echoes_iff hx.symm hintegral.symm⟩
  · intro ns hd hval
    obtain ⟨v, items, hv, hitems, hxs, hintegral⟩ := exists_vector_of_describes hd
    obtain rfl := Json.array.inj (hval.symm.trans hitems)
    refine ⟨_, hv, ?_⟩
    have hx : v.val = (ns.map WireInteger.val).map .ofInt := by
      rw [List.forall₂_map_left_iff] at hxs
      have heq : List.Forall₂ (· = ·) (ns.map fun n => Binary64.ofInt n.val) v.val :=
        List.forall₂_map_left_iff.mpr (hxs.imp fun n x hx => Option.some.inj hx)
      rw [List.forall₂_eq_eq_eq] at heq
      rw [List.map_map, ← heq]
      rfl
    have hall : v.integral = true := by simp [hintegral, Json.isInteger]
    have h := ScalarVector.echoesAll_iff hx hall
    rwa [List.forall_mem_map, List.forall_mem_map] at h

/-- A number of ticks, with an upper bound. -/
def sampleTicks (n : Int64) : Definition :=
  { bare ⟨1⟩ "ticks" (.ofInt64 n) with max := some (.uniform (.ofInt 0x40_0000_0000_0000)) }

/-- Two numbers of ticks, with an upper bound for both. -/
def sampleTicksTwice (n n' : Int64) : Definition :=
  { bare ⟨1⟩ "ticks" (.array [.ofInt64 n, .ofInt64 n']) with
    max := some (.uniform (.ofInt 0x40_0000_0000_0000)) }

/-- Up to 2^53 integers come back, and a larger one makes numbers of all. -/
theorem echoes_sampleTicks :
    (∃ p, (sampleTicks 0x20_0000_0000_0000).resolve = .ok p ∧
      p.value.Echoes 0x20_0000_0000_0000) ∧
    ∃ p, (sampleTicksTwice 0x20_0000_0000_0001 0x20_0000_0000_0002).resolve = .ok p ∧
      p.value.EchoesAll [0x20_0000_0000_0001, 0x20_0000_0000_0002] := by
  constructor
  · obtain ⟨p, hp, hechoes⟩ := (echoes_described_iff (sampleTicks 0x20_0000_0000_0000)).1
      (.ofInt64 0x20_0000_0000_0000)
      (.scalar rfl rfl rfl (Or.inl (Option.some_ne_none _)) (by simp [sampleTicks, bare])) rfl
    exact ⟨p, hp, hechoes.mpr (by decide)⟩
  · obtain ⟨p, hp, hechoes⟩ :=
      (echoes_described_iff (sampleTicksTwice 0x20_0000_0000_0001 0x20_0000_0000_0002)).2
        [.ofInt64 0x20_0000_0000_0001, .ofInt64 0x20_0000_0000_0002]
        (.vector rfl rfl rfl rfl (by simp [Json.ofInt64, Json.toReal?]) trivial
          (by simp [sampleTicksTwice, bare])) rfl
    exact ⟨p, hp, hechoes.mpr (by decide)⟩

/-- The next integer comes back as the one before it. -/
theorem not_echoes_sampleTicks :
    ∃ p, (sampleTicks 0x20_0000_0000_0001).resolve = .ok p ∧
      p.value = .int 0x20_0000_0000_0000 ∧ ¬ p.value.Echoes 0x20_0000_0000_0001 := by
  have hvalue : ∃ p, (sampleTicks 0x20_0000_0000_0001).resolve = .ok p ∧
      p.value = .int 0x20_0000_0000_0000 := ⟨_, rfl, by decide +kernel⟩
  obtain ⟨p, hp, hvalue⟩ := hvalue
  refine ⟨p, hp, hvalue, ?_⟩
  rw [hvalue, Value.echoes_int_iff]
  decide

end Definition

end LiveTuner
