import InstrumentBus.Proofs.Number.Exact
import InstrumentBus.Value.Conversion

/-!
# Equal values

Two values are equal if they are the same or if they are one number of the same kind with two
zeros taken for one (`Value.beq_cases`). Equal values compare alike with every value
(`Value.beq_congr`) and so do the doubles nearest to them (`Value.number?_congr`).
-/

namespace InstrumentBus

open Number

namespace Number

/-- Equal numbers are the same, or zeros. -/
theorem Datum.eq_or_zero_of_equal {x y : Datum} (h : x.equal y = true) :
    x = y ∨ ∃ s t, x = finite s 0 ∧ y = finite t 0 := by
  cases x with
  | nan => cases h
  | infinite s =>
    cases y with
    | nan => cases h
    | infinite t => cases s <;> cases t <;> first | exact .inl rfl | cases h
    | finite t n => cases s <;> cases h
  | finite s m =>
    cases y with
    | nan => cases h
    | infinite t => cases t <;> cases h
    | finite t n =>
      have hsigned : signed s m = signed t n := by simpa [equal, compare] using h
      by_cases hm : m = 0
      · subst hm
        obtain rfl : n = 0 := by cases s <;> cases t <;> simp [signed] at hsigned <;> omega
        exact .inr ⟨s, t, rfl, rfl⟩
      · refine .inl ?_
        cases s <;> cases t <;> simp only [signed, Bool.false_eq_true, if_false, if_true]
          at hsigned <;> first | omega | (congr 1; omega)

/-- Equal numbers compare alike with every number. -/
theorem Datum.compare_congr {x y : Datum} (h : x.equal y = true) (z : Datum) :
    x.compare z = y.compare z ∧ z.compare x = z.compare y := by
  rcases eq_or_zero_of_equal h with rfl | ⟨s, t, rfl, rfl⟩
  · exact ⟨rfl, rfl⟩
  · cases s <;> cases t <;> cases z <;> exact ⟨rfl, rfl⟩

theorem Datum.equal_congr {x y : Datum} (h : x.equal y = true) (z : Datum) :
    x.equal z = y.equal z := by
  rw [equal, equal, (compare_congr h z).1]

theorem Datum.less_congr {x y : Datum} (h : x.equal y = true) (z : Datum) :
    x.less z = y.less z ∧ z.less x = z.less y := by
  simp only [less, compare_congr h z, and_self]

theorem Datum.toRat?_congr {x y : Datum} (h : x.equal y = true) (unitBits : ℕ) :
    x.toRat? unitBits = y.toRat? unitBits := by
  rcases eq_or_zero_of_equal h with rfl | ⟨s, t, rfl, rfl⟩
  · rfl
  · cases s <;> cases t <;> simp [toRat?, signed]

theorem Double.equal_iff {x y : Double} {p q : ℚ} (hx : x.toRat? = some p)
    (hy : y.toRat? = some q) : x.datum.equal y.datum = true ↔ p = q := by
  obtain ⟨s, u, hu, rfl⟩ := toRat?_eq_some_iff.mp hx
  obtain ⟨t, v, hv, rfl⟩ := toRat?_eq_some_iff.mp hy
  rw [div_left_inj' (by positivity), Int.cast_inj, hu, hv]
  simp [Datum.equal, Datum.compare]

/-- A number is equal to itself. -/
theorem Datum.equal_self {x : Datum} (h : x ≠ nan) : x.equal x = true := by
  cases x with
  | nan => exact absurd rfl h
  | infinite s => simp [equal, compare]
  | finite s u => simp [equal, compare]

/-- What is not a number is none as a double. -/
theorem Single.isNaN_toDouble {x : Single} (h : x.datum = .nan) : x.toDouble.isNaN = true := by
  rw [toDouble, h]
  decide +kernel

/-- Equal singles are equal as doubles. -/
theorem Single.equal_toDouble {x y : Single} (h : x.datum.equal y.datum = true) :
    x.toDouble.datum.equal y.toDouble.datum = true := by
  have hexact := Datum.toRat?_congr h Format.single.unitBits
  cases hx : x.datum with
  | nan => simp [hx, Datum.equal, Datum.compare] at h
  | infinite s =>
    have hy : y.datum = .infinite s := by
      rcases Datum.eq_or_zero_of_equal h with heq | ⟨_, _, heq, -⟩
      · exact heq.symm.trans hx
      · simp [hx] at heq
    rw [toDouble, toDouble, hx, hy]
    cases s <;> decide +kernel
  | finite s u =>
    obtain ⟨q, hq⟩ : ∃ q, x.toRat? = some q := ⟨_, by rw [toRat?, hx]; rfl⟩
    have hy : y.toRat? = some q := hexact.symm.trans hq
    exact (Double.equal_iff ((toRat?_toDouble x).trans hq) ((toRat?_toDouble y).trans hy)).mpr rfl

end Number

namespace Value

/-- Equal values are the same, or the same number. -/
theorem beq_cases {v w : Value} (h : (v == w) = true) :
    v = w ∨ (∃ x y, v = f32 x ∧ w = f32 y ∧ x.datum.equal y.datum = true) ∨
      ∃ x y, v = f64 x ∧ w = f64 y ∧ x.datum.equal y.datum = true := by
  change v.same w = true at h
  unfold same at h
  split at h
  · rename_i x y
    exact Or.inr (Or.inl ⟨x, y, rfl, rfl, h⟩)
  · rename_i x y
    exact Or.inr (Or.inr ⟨x, y, rfl, rfl, h⟩)
  · exact Or.inl (of_decide_eq_true h)

/-- Equal values are equal to the same values. -/
theorem beq_congr {v w : Value} (h : (v == w) = true) (u : Value) : (v == u) = (w == u) := by
  change v.same u = w.same u
  rcases beq_cases h with rfl | ⟨x, y, rfl, rfl, hxy⟩ | ⟨x, y, rfl, rfl, hxy⟩
  · rfl
  · cases u with
    | f32 z => exact Datum.equal_congr hxy z.datum
    | _ => rfl
  · cases u with
    | f64 z => exact Datum.equal_congr hxy z.datum
    | _ => rfl

/-- A value is equal to itself unless it is a floating-point value that is not a number. -/
theorem beq_self_of_number? {v : Value} (h : ∀ x, v.number? = some x → x.isNaN = false) :
    (v == v) = true := by
  cases v with
  | f32 x =>
    refine Datum.equal_self fun hnan => ?_
    simpa [Single.isNaN_toDouble hnan] using h _ rfl
  | f64 x =>
    refine Datum.equal_self fun hnan => ?_
    simpa [Double.isNaN, hnan] using h _ rfl
  | _ =>
    change same _ _ = true
    simp [same]

/-- As doubles, equal values compare alike with every number. -/
theorem number?_congr {v w : Value} (h : (v == w) = true) :
    v.number? = w.number? ∨
      ∃ x y, v.number? = some x ∧ w.number? = some y ∧ x.datum.equal y.datum = true := by
  rcases beq_cases h with rfl | ⟨x, y, rfl, rfl, hxy⟩ | ⟨x, y, rfl, rfl, hxy⟩
  · exact .inl rfl
  · exact .inr ⟨_, _, rfl, rfl, Single.equal_toDouble hxy⟩
  · exact .inr ⟨_, _, rfl, rfl, hxy⟩

end Value
end InstrumentBus
