import InstrumentBus.Proofs.Number.Exact
import InstrumentBus.Json.Numeric

/-!
# The numbers of a JSON text are finite

A number beyond the largest double has no value (`Numeric.ofText?` fails), and scaling down by a
power of ten keeps a finite double finite, so each number that a JSON text holds is a rational
number as a double: `Numeric.isFinite_toDouble`.
-/

namespace InstrumentBus

open Number

namespace Number.Double

/-- The double is a rational number. -/
def IsFinite (x : Double) : Prop := ∃ q, x.toRat? = some q

theorem isFinite_iff {x : Double} : x.IsFinite ↔ ∃ s u, x.datum = .finite s u := by
  simp only [IsFinite, toRat?_eq_some_iff]
  exact ⟨fun ⟨_, s, u, h, _⟩ => ⟨s, u, h⟩, fun ⟨s, u, h⟩ => ⟨_, s, u, h, rfl⟩⟩

/-- A rounded quotient is finite if a number of the format does not lie below it. -/
theorem isFinite_round {a d u : ℕ} (negative : Bool) (hu : Format.double.Has u)
    (hd : 0 < d) (h : a * 2 ^ Format.double.unitBits ≤ u * d) :
    (Double.mk (.ofNat (Format.double.round negative a d))).IsFinite := by
  obtain ⟨v, -, -, hv⟩ := hu.round_le hd h
  exact isFinite_iff.mpr ⟨negative, v, by rw [datum_round, hv]; rfl⟩

theorem isFinite_of_not_isInfinite {num den : ℕ} {negative : Bool}
    (h : (Double.mk (.ofNat (Format.double.round negative num den))).isInfinite = false) :
    (Double.mk (.ofNat (Format.double.round negative num den))).IsFinite := by
  have hnan := Format.decode_roundUnits_ne_nan (f := .double)
    (num * 2 ^ Format.double.unitBits) den
  rw [isInfinite, datum_round] at h
  rw [isFinite_iff, datum_round]
  generalize Format.double.decode
    (Format.double.roundUnits (num * 2 ^ Format.double.unitBits) den) = d at *
  cases d with
  | nan => exact absurd rfl hnan
  | infinite s => simp [Datum.withSign] at h
  | finite s u => exact ⟨_, _, rfl⟩

theorem isFinite_zero (negative : Bool) : (zero negative).IsFinite :=
  isFinite_round negative has_two_pow_64 Nat.one_pos (by simp)

theorem isFinite_ofInt {n : ℤ} (h : n.natAbs ≤ 2 ^ 64) : (ofInt n).IsFinite := by
  obtain ⟨u, -, hu⟩ := exists_units_ofInt h
  exact ⟨_, hu⟩

theorem IsFinite.neg {x : Double} (h : x.IsFinite) : x.neg.IsFinite := by
  obtain ⟨s, u, hu⟩ := isFinite_iff.mp h
  rw [Double.neg, hu]
  refine isFinite_round _ (has_of_datum hu) ?_ ?_ <;> rw [Nat.pow_eq]
  positivity

theorem IsFinite.mul {x y : Double} (hx : x.IsFinite) (hy : y.IsFinite)
    (h : (x.mul y).isInfinite = false) : (x.mul y).IsFinite := by
  obtain ⟨s, u, hu⟩ := isFinite_iff.mp hx
  obtain ⟨t, v, hv⟩ := isFinite_iff.mp hy
  rw [Double.mul, hu, hv] at h ⊢
  exact isFinite_of_not_isInfinite h

/-- A quotient by a number that is at least one is no larger than the dividend. -/
theorem IsFinite.div {x y : Double} {t : Bool} {v : ℕ} (hx : x.IsFinite)
    (hy : y.datum = .finite t v) (hv : 2 ^ Format.double.unitBits ≤ v) : (x.div y).IsFinite := by
  obtain ⟨s, u, hu⟩ := isFinite_iff.mp hx
  rw [Double.div, hu, hy]
  have hpos : 0 < v := lt_of_lt_of_le (by positivity) hv
  exact isFinite_round _ (has_of_datum hu) hpos (Nat.mul_le_mul_left _ hv)

end Number.Double

namespace Json.Numeric

/-- The powers of ten by which numbers are scaled are finite and at least one. -/
theorem exists_datum_powerOfTen {n : ℕ} (h : n ≤ maxPower) :
    ∃ v, (powerOfTen n).datum = .finite false v ∧ 2 ^ Format.double.unitBits ≤ v := by
  have hone : Format.double.Has (2 ^ Format.double.unitBits) :=
    ⟨1023 * 2 ^ 52, by decide, by decide +kernel⟩
  have hlarge : Format.double.Has ((2 ^ 53 - 1) * 2 ^ 971 * 2 ^ Format.double.unitBits) :=
    ⟨2047 * 2 ^ 52 - 1, by decide, by decide +kernel⟩
  have hten : 10 ^ n ≤ (2 ^ 53 - 1) * 2 ^ 971 :=
    (Nat.pow_le_pow_right (by decide) h).trans (by decide +kernel)
  obtain ⟨v, -, -, hv⟩ := hlarge.round_le Nat.one_pos
    (a := 10 ^ n * 2 ^ Format.double.unitBits)
    (by rw [Nat.mul_one]; exact Nat.mul_le_mul_right _ hten)
  refine ⟨v, ?_, hone.le_round Nat.one_pos ?_ hv⟩
  · rw [powerOfTen, Double.ofQuotient, Double.datum_round, Nat.pow_eq, hv]
    rfl
  · rw [Nat.mul_one]
    exact Nat.le_mul_of_pos_left _ (by positivity)

theorem isFinite_scale {fuel : ℕ} {x y : Double} {power : ℤ} (hx : x.IsFinite)
    (h : scale fuel x power = some y) : y.IsFinite := by
  induction fuel generalizing x power with
  | zero => exact Option.some.inj h ▸ hx
  | succ fuel ih =>
    simp only [scale] at h
    split_ifs at h with hpower hup hinf hzero
    · obtain ⟨v, hv, -⟩ := exists_datum_powerOfTen hpower
      obtain rfl := Option.some.inj h
      exact hx.mul (Double.isFinite_iff.mpr ⟨_, _, hv⟩) (by simpa using hinf)
    · obtain ⟨v, hv, hle⟩ := exists_datum_powerOfTen hpower
      obtain rfl := Option.some.inj h
      exact hx.div hv hle
    · exact Option.some.inj h ▸ hx
    · obtain ⟨v, hv, hle⟩ := exists_datum_powerOfTen le_rfl
      exact ih (hx.div hv hle) h

theorem gather_lt {n : ℕ} (h : n < UInt64.size) (cs : List Char) :
    (gather n cs).1 < UInt64.size := by
  induction cs generalizing n with
  | nil => exact h
  | cons c cs ih =>
    rw [gather]
    split_ifs with hnext
    · exact ih hnext
    · exact h

theorem isFinite_float? {n : NumberText} {x : Double} (h : float? n = some x) : x.IsFinite := by
  have hdigits : (gather (gather 0 n.whole).1 (n.fraction.getD [])).1 < UInt64.size :=
    gather_lt (gather_lt (by decide) _) _
  have hstart : (Double.ofInt ((gather (gather 0 n.whole).1 (n.fraction.getD [])).1 : ℤ)).IsFinite :=
    Double.isFinite_ofInt (by rw [Int.natAbs_natCast]; exact hdigits.le)
  simp only [float?, Option.map_eq_some_iff] at h
  obtain ⟨y, hy, rfl⟩ := h
  have hfinite : y.IsFinite := by
    split at hy
    · exact isFinite_scale hstart hy
    · split_ifs at hy
      · exact isFinite_scale hstart hy
      · exact isFinite_scale hstart hy
      · exact Option.some.inj hy ▸ Double.isFinite_zero false
  split_ifs
  · exact hfinite.neg
  · exact hfinite

/-- The double of a number that a JSON text holds is a rational number. -/
theorem isFinite_toDouble {text : NumberText} {n : Numeric} (h : ofText? text = some n) :
    n.toDouble.IsFinite := by
  cases n with
  | unsigned n =>
    exact Double.isFinite_ofInt (by rw [Int.natAbs_natCast]; exact n.toNat_lt.le)
  | negative n =>
    have hle := n.le_toInt
    have hlt := n.toInt_lt
    exact Double.isFinite_ofInt (by omega)
  | float x =>
    have hfloat : float? text = some x := by
      simp only [ofText?] at h
      split at h
      · split_ifs at h <;> simp at h <;> exact h
      · simpa using h
    exact isFinite_float? hfloat

end Json.Numeric
end InstrumentBus
