import InstrumentBus.Proofs.Number.Rounding

/-!
# The exact values of floating-point numbers

`Double.toRat?` is the rational number that a double is, if it is a number at all. Comparison is the
order of these rationals (`Double.less_iff`), a single keeps its value as a double
(`Single.toRat?_toDouble`), and the double nearest to an integer never passes another double that
the integer does not pass (`Double.toRat?_ofInt_sides`); up to `2 ^ 53` it is the integer itself
(`Double.toRat?_ofInt`).
-/

namespace InstrumentBus.Number

/-- The rational number that a finite number is, its unit being two to the minus `unitBits`. -/
def Datum.toRat? (unitBits : ℕ) : Datum → Option ℚ
  | .finite negative units => some (signed negative units / 2 ^ unitBits)
  | _ => none

theorem Datum.signed_natAbs_mul (n : ℤ) (unit : ℕ) :
    signed (decide (n < 0)) (n.natAbs * unit) = n * unit := by
  rcases lt_or_ge n 0 with h | h
  · simp [signed, h, abs_of_neg h]
  · simp [signed, not_lt.mpr h, abs_of_nonneg h]

/-- A number counted in smaller units. -/
theorem Datum.toRat?_shift (s : Bool) (u k n : ℕ) :
    (finite s (u * 2 ^ k)).toRat? (k + n) = (finite s u).toRat? n := by
  have hsigned : signed s (u * 2 ^ k) = 2 ^ k * signed s u := by
    cases s <;> simp [signed, mul_comm]
  rw [toRat?, toRat?, hsigned, pow_add]
  push_cast
  rw [mul_div_mul_left _ _ (by positivity)]

/-- A size that stays on its side of another one does so under any signs. -/
theorem Datum.signed_sides {a u v : ℕ} (s t : Bool) (hup : a ≤ v → u ≤ v)
    (hdown : v ≤ a → v ≤ u) :
    (signed s a ≤ signed t v → signed s u ≤ signed t v) ∧
      (signed t v ≤ signed s a → signed t v ≤ signed s u) := by
  cases s <;> cases t <;> simp only [signed, Bool.false_eq_true, if_false, if_true] <;> omega

def Double.toRat? (x : Double) : Option ℚ := x.datum.toRat? Format.double.unitBits

def Single.toRat? (x : Single) : Option ℚ := x.datum.toRat? Format.single.unitBits

namespace Double

variable {x y : Double} {p q : ℚ} {n : ℤ}

theorem toRat?_eq_some_iff :
    x.toRat? = some q ↔
      ∃ s u, x.datum = .finite s u ∧ q = Datum.signed s u / 2 ^ Format.double.unitBits := by
  rw [toRat?]
  cases x.datum <;> simp [Datum.toRat?, eq_comm]

theorem has_of_datum {s : Bool} {u : ℕ} (h : x.datum = .finite s u) : Format.double.Has u :=
  Format.has_of_decode h

/-- The rounded quotient fits its 64 bits. -/
theorem datum_round (negative : Bool) (num den : ℕ) :
    (Double.mk (.ofNat (Format.double.round negative num den))).datum =
      (Format.double.decode (Format.double.roundUnits (num * 2 ^ Format.double.unitBits) den)
        ).withSign negative := by
  have hround := Format.roundUnits_le (f := .double) (num * 2 ^ Format.double.unitBits) den
  have hlt : Format.double.round negative num den < 2 ^ 64 := by
    have hbits : Format.double.infinityBits + Format.double.signBit < 2 ^ 64 := by decide
    rw [Format.round, Nat.pow_eq]
    split <;> omega
  rw [datum, UInt64.toNat_ofNat_of_lt' hlt, Format.decode_round]

theorem less_iff (hx : x.toRat? = some p) (hy : y.toRat? = some q) :
    x.datum.less y.datum = true ↔ p < q := by
  obtain ⟨s, u, hu, rfl⟩ := toRat?_eq_some_iff.mp hx
  obtain ⟨t, v, hv, rfl⟩ := toRat?_eq_some_iff.mp hy
  rw [div_lt_div_iff_of_pos_right (by positivity), Int.cast_lt, hu, hv]
  simp [Datum.less, Datum.compare, compare_lt_iff_lt]

theorem isNaN_of_toRat? (hx : x.toRat? = some p) : x.isNaN = false := by
  obtain ⟨s, u, hu, -⟩ := toRat?_eq_some_iff.mp hx
  rw [isNaN, hu]
  rfl

/-- A double that is no rational number is on one side of all rational numbers, or not a number. -/
theorem less_of_toRat?_eq_none (hx : x.toRat? = none) (hnan : x.isNaN = false) :
    (∀ y q, Double.toRat? y = some q → x.datum.less y.datum = true) ∨
      ∀ y q, Double.toRat? y = some q → y.datum.less x.datum = true := by
  rw [isNaN] at hnan
  rw [toRat?] at hx
  cases h : x.datum with
  | nan => simp [h] at hnan
  | finite s u => simp [h, Datum.toRat?] at hx
  | infinite s =>
    cases s
    · refine .inr fun y q hy => ?_
      obtain ⟨t, v, hv, -⟩ := toRat?_eq_some_iff.mp hy
      rw [hv]
      rfl
    · refine .inl fun y q hy => ?_
      obtain ⟨t, v, hv, -⟩ := toRat?_eq_some_iff.mp hy
      rw [hv]
      rfl

/-! ## The double nearest to an integer -/

theorem datum_ofInt (n : ℤ) :
    (ofInt n).datum = (Format.double.decode
      (Format.double.roundUnits (n.natAbs * 2 ^ Format.double.unitBits) 1)).withSign
        (decide (n < 0)) :=
  datum_round ..

/-- An integer is a count of units, with its sign. -/
theorem intCast_eq (n : ℤ) :
    (n : ℚ) = Datum.signed (decide (n < 0)) (n.natAbs * 2 ^ Format.double.unitBits) /
      2 ^ Format.double.unitBits := by
  rw [Datum.signed_natAbs_mul, eq_div_iff (by positivity)]
  push_cast
  rfl

theorem has_two_pow_64 : Format.double.Has (2 ^ 64 * 2 ^ Format.double.unitBits) :=
  ⟨(1023 + 64) * 2 ^ 52, by decide, by decide +kernel⟩

/-- The bits of an integer of at most 64 bits, without their sign, are finite. -/
theorem exists_units_ofInt (h : n.natAbs ≤ 2 ^ 64) :
    ∃ u, Format.double.decode
        (Format.double.roundUnits (n.natAbs * 2 ^ Format.double.unitBits) 1) = .finite false u ∧
      (ofInt n).toRat? =
        some ((Datum.signed (decide (n < 0)) u : ℚ) / 2 ^ Format.double.unitBits) := by
  obtain ⟨u, -, -, hu⟩ := has_two_pow_64.round_le Nat.one_pos
    (a := n.natAbs * 2 ^ Format.double.unitBits)
    (by rw [Nat.mul_one]; exact Nat.mul_le_mul_right _ h)
  refine ⟨u, hu, ?_⟩
  rw [toRat?, datum_ofInt, hu]
  rfl

/-- The double nearest to an integer lies on the integer's side of every double. -/
theorem toRat?_ofInt_sides (h : n.natAbs ≤ 2 ^ 64) (hn : (ofInt n).toRat? = some p)
    (hx : x.toRat? = some q) : ((n : ℚ) ≤ q → p ≤ q) ∧ (q ≤ n → q ≤ p) := by
  obtain ⟨u, hu, hn'⟩ := exists_units_ofInt h
  obtain rfl := Option.some.inj (hn.symm.trans hn')
  obtain ⟨s, v, hv, rfl⟩ := toRat?_eq_some_iff.mp hx
  have hunit : (0 : ℚ) < 2 ^ Format.double.unitBits := by positivity
  simp only [intCast_eq n, div_le_div_iff_of_pos_right hunit, Int.cast_le]
  refine Datum.signed_sides _ _ (fun hle => ?_) (fun hle => ?_)
  · obtain ⟨w, hw, -, hu'⟩ := (has_of_datum hv).round_le Nat.one_pos (by simpa using hle)
    rwa [(Datum.finite.inj (hu.symm.trans hu')).2]
  · exact (has_of_datum hv).le_round Nat.one_pos (by simpa using hle) hu

/-- Integers of at most 53 bits are doubles. -/
theorem toRat?_ofInt (h : n.natAbs ≤ 2 ^ 53) : (ofInt n).toRat? = some (n : ℚ) := by
  have hholds : Format.double.Holds (n.natAbs * 2 ^ Format.double.unitBits) := by
    rcases h.lt_or_eq with hlt | heq
    · exact ⟨_, _, hlt, rfl⟩
    · exact ⟨1, 53 + Format.double.unitBits, by decide, by rw [heq, Nat.pow_add, Nat.one_mul]⟩
  obtain ⟨u, hu, hn⟩ := exists_units_ofInt (h.trans (by decide))
  have hexact := hholds.decode_roundUnits Nat.one_pos (by
    rw [Nat.mul_one]
    exact Format.roundUnits_lt_of_decode hu)
  rw [Nat.mul_one, hu] at hexact
  rw [hn, (Datum.finite.inj hexact).2, ← intCast_eq]

end Double

/-! ## Singles -/

theorem unitBits_double : Format.double.unitBits = 925 + Format.single.unitBits := rfl

/-- A count of the smaller format's units, counted in the larger one's. -/
theorem Single.decode_convert {u : ℕ} (h : Format.single.Has u) :
    Format.double.decode (Format.double.roundUnits (u * 2 ^ Format.double.unitBits)
      (2 ^ Format.single.unitBits)) = .finite false (u * 2 ^ 925) := by
  have hunits : u * 2 ^ Format.double.unitBits = u * 2 ^ 925 * 2 ^ Format.single.unitBits := by
    rw [Nat.mul_assoc, ← Nat.pow_add, unitBits_double]
  have hholds : Format.double.Holds (u * 2 ^ 925) := by
    obtain ⟨m, k, hm, rfl⟩ := h.holds
    exact ⟨m, k + 925, hm.trans (by decide), by rw [Nat.pow_add, Nat.mul_assoc]⟩
  have hlarge : Format.double.Has
      (2 ^ (Format.single.fractionBits + Format.single.topExponent) * 2 ^ 925) :=
    ⟨1152 * 2 ^ 52, by decide, by decide +kernel⟩
  obtain ⟨v, -, -, hv⟩ := hlarge.round_le (d := 2 ^ Format.single.unitBits)
    (a := u * 2 ^ Format.double.unitBits) (by positivity) (by
      rw [hunits]
      exact Nat.mul_le_mul_right _ (Nat.mul_le_mul_right _ h.lt.le))
  rw [hunits] at hv ⊢
  exact hholds.decode_roundUnits (by positivity) (Format.roundUnits_lt_of_decode hv)

/-- A single keeps its value as a double. -/
theorem Single.toRat?_toDouble (x : Single) : x.toDouble.toRat? = x.toRat? := by
  rw [toDouble, Single.toRat?]
  cases hx : x.datum with
  | nan => decide +kernel
  | infinite s => cases s <;> decide +kernel
  | finite s u =>
    rw [Format.convert, Double.toRat?, Double.datum_round, Nat.pow_eq,
      Single.decode_convert (Format.has_of_decode hx), Datum.withSign, unitBits_double,
      Datum.toRat?_shift]

end InstrumentBus.Number
