import Mathlib
import InstrumentBus.Number.Binary

/-!
# Rounding to a binary format

`Format.roundUnits` is monotone in the quotient that it rounds, depends on nothing but its value,
and gives back each number that the format has. The bits it answers are `s * 2 ^ p + m`, where `m`
counts steps of `2 ^ s` units and `p` is the width of the fraction; `Format.IsStep` is the condition
under which these bits mean `m * 2 ^ s` units (`decode_of_isStep`), and every finite positive number
is of that form.
-/

namespace InstrumentBus.Number

/-! ## Nearest integers -/

theorem roundHalfEven_cases (a d : ℕ) :
    (roundHalfEven a d = a / d ∧ 2 * (a % d) ≤ d) ∨
      (roundHalfEven a d = a / d + 1 ∧ d ≤ 2 * (a % d)) := by
  simp only [roundHalfEven]
  split_ifs <;> omega

theorem div_le_roundHalfEven (a d : ℕ) : a / d ≤ roundHalfEven a d := by
  have := roundHalfEven_cases a d
  omega

theorem roundHalfEven_le (a d : ℕ) : roundHalfEven a d ≤ a / d + 1 := by
  have := roundHalfEven_cases a d
  omega

theorem roundHalfEven_mul_self (m : ℕ) {d : ℕ} (hd : 0 < d) : roundHalfEven (m * d) d = m := by
  simp [roundHalfEven, Nat.mul_div_cancel _ hd, hd]

theorem roundHalfEven_mul (a d : ℕ) {k : ℕ} (hk : 0 < k) :
    roundHalfEven (a * k) (d * k) = roundHalfEven a d := by
  have hlt (x y : ℕ) : x * k < y * k ↔ x < y := Nat.mul_lt_mul_right hk
  simp only [roundHalfEven, Nat.mul_div_mul_right _ _ hk, Nat.mul_mod_mul_right, ← Nat.mul_assoc,
    hlt]

theorem roundHalfEven_le_of_le {a b : ℕ} (h : a ≤ b) (d : ℕ) :
    roundHalfEven a d ≤ roundHalfEven b d := by
  rcases Nat.lt_or_ge (a / d) (b / d) with hlt | hge
  · exact (roundHalfEven_le a d).trans (hlt.trans_le (div_le_roundHalfEven b d))
  -- in one step of the denominator the remainders are ordered like the numbers
  · have hq : a / d = b / d := (Nat.div_le_div_right h).antisymm hge
    have hr : a % d ≤ b % d := by
      have ha := Nat.div_add_mod a d
      have hb := Nat.div_add_mod b d
      rw [hq] at ha
      omega
    simp only [roundHalfEven, hq]
    split_ifs <;> omega

theorem roundHalfEven_mono {a b c d : ℕ} (hb : 0 < b) (hd : 0 < d) (h : a * d ≤ c * b) :
    roundHalfEven a b ≤ roundHalfEven c d := by
  rw [← roundHalfEven_mul a b hd, ← roundHalfEven_mul c d hb, Nat.mul_comm d b]
  exact roundHalfEven_le_of_le h _

namespace Format

variable (f : Format)

/-! ## What the bits mean -/

/-- The bits `s * 2 ^ p + m` stand for `m` steps of `2 ^ s` units: steps are longer than a unit
only as far as the fraction cannot count so many. -/
structure IsStep (s m : ℕ) : Prop where
  le : m ≤ 2 ^ (f.fractionBits + 1)
  norm : s = 0 ∨ 2 ^ f.fractionBits ≤ m

variable {f}

theorem exists_isStep (bits : ℕ) :
    ∃ s m, f.IsStep s m ∧ m < 2 ^ (f.fractionBits + 1) ∧ bits = s * 2 ^ f.fractionBits + m := by
  have hmod : bits % 2 ^ f.fractionBits < 2 ^ f.fractionBits := Nat.mod_lt _ (by positivity)
  have hbits := Nat.div_add_mod' bits (2 ^ f.fractionBits)
  have hpow := Nat.pow_succ 2 f.fractionBits
  rcases Nat.eq_zero_or_pos (bits / 2 ^ f.fractionBits) with h0 | hpos
  · rw [h0] at hbits
    exact ⟨0, bits % 2 ^ f.fractionBits, ⟨by omega, .inl rfl⟩, by omega, by omega⟩
  · obtain ⟨e, he⟩ : ∃ e, bits / 2 ^ f.fractionBits = e + 1 := ⟨_, (Nat.succ_pred hpos.ne').symm⟩
    rw [he, Nat.add_mul] at hbits
    exact ⟨e, 2 ^ f.fractionBits + bits % 2 ^ f.fractionBits, ⟨by omega, .inr (by omega)⟩,
      by omega, by omega⟩

theorem infinityBits_eq : f.infinityBits = f.topExponent * 2 ^ f.fractionBits := by
  simp [infinityBits]

theorem topExponent_lt : f.topExponent < 2 ^ f.exponentBits := by
  have : 0 < 2 ^ f.exponentBits := by positivity
  simp only [topExponent, Nat.pow_eq]
  omega

theorem infinityBits_lt_signBit : f.infinityBits < f.signBit := by
  rw [infinityBits_eq, signBit, Nat.pow_eq, Nat.pow_add]
  exact Nat.mul_lt_mul_of_pos_right topExponent_lt (by positivity)

/-- The bits of a number below infinity, split into exponent and fraction. -/
theorem decode_of_lt {bits : ℕ} (h : bits < f.infinityBits) :
    f.decode bits =
      .finite false (if bits / 2 ^ f.fractionBits = 0 then bits % 2 ^ f.fractionBits
        else (2 ^ f.fractionBits + bits % 2 ^ f.fractionBits)
          * 2 ^ (bits / 2 ^ f.fractionBits - 1)) := by
  have he : bits / 2 ^ f.fractionBits < f.topExponent := by
    rw [Nat.div_lt_iff_lt_mul (by positivity), ← infinityBits_eq]
    exact h
  have hmod : bits / 2 ^ f.fractionBits % 2 ^ f.exponentBits = bits / 2 ^ f.fractionBits :=
    Nat.mod_eq_of_lt (he.trans topExponent_lt)
  have hs : ¬ f.signBit ≤ bits := Nat.not_le.mpr (h.trans infinityBits_lt_signBit)
  simp only [decode, Nat.pow_eq, hmod, he.ne, hs, if_false, decide_false]
  split_ifs <;> rfl

theorem decode_of_isStep {s m : ℕ} (h : f.IsStep s m)
    (hlt : s * 2 ^ f.fractionBits + m < f.infinityBits) :
    f.decode (s * 2 ^ f.fractionBits + m) = .finite false (m * 2 ^ s) := by
  have hp : 0 < 2 ^ f.fractionBits := by positivity
  have hpow := Nat.pow_succ 2 f.fractionBits
  have hle := h.le
  have hsplit (e r : ℕ) (hr : r < 2 ^ f.fractionBits) :
      (e * 2 ^ f.fractionBits + r) / 2 ^ f.fractionBits = e ∧
        (e * 2 ^ f.fractionBits + r) % 2 ^ f.fractionBits = r := by
    rw [Nat.mul_comm e, Nat.mul_add_div hp, Nat.mul_add_mod]
    simp [Nat.div_eq_of_lt hr, Nat.mod_eq_of_lt hr]
  rw [decode_of_lt hlt]
  rcases Nat.lt_or_ge m (2 ^ f.fractionBits) with hm | hm
  -- below the smallest normal number the exponent field is zero
  · obtain rfl : s = 0 := h.norm.resolve_right (by omega)
    obtain ⟨hdiv, hmod⟩ := hsplit 0 m hm
    rw [hdiv, hmod]
    simp
  rcases hle.lt_or_eq with hlt | rfl
  · obtain ⟨r, rfl⟩ := Nat.exists_eq_add_of_le hm
    obtain ⟨hdiv, hmod⟩ := hsplit (s + 1) r (by omega)
    rw [show s * 2 ^ f.fractionBits + (2 ^ f.fractionBits + r) =
      (s + 1) * 2 ^ f.fractionBits + r by ring, hdiv, hmod]
    simp
  -- a full fraction carries into the exponent
  · obtain ⟨hdiv, hmod⟩ := hsplit (s + 2) 0 hp
    rw [show s * 2 ^ f.fractionBits + 2 ^ (f.fractionBits + 1) =
      (s + 2) * 2 ^ f.fractionBits + 0 by ring, hdiv, hmod]
    simp only [Nat.add_eq_zero_iff, OfNat.ofNat_ne_zero, and_false, if_false, Nat.add_zero]
    congr 1
    rw [Nat.add_sub_cancel_right (s + 1) 1]
    ring

theorem exists_decode {bits : ℕ} (h : bits < f.infinityBits) :
    ∃ s m, f.IsStep s m ∧ m < 2 ^ (f.fractionBits + 1) ∧ bits = s * 2 ^ f.fractionBits + m ∧
      f.decode bits = .finite false (m * 2 ^ s) := by
  obtain ⟨s, m, hstep, hm, rfl⟩ := exists_isStep (f := f) bits
  exact ⟨s, m, hstep, hm, rfl, decode_of_isStep hstep h⟩

/-- Larger bits mean a larger number. -/
theorem units_le_of_le {a b u v : ℕ} (hab : a ≤ b) (hb : b < f.infinityBits)
    (hu : f.decode a = .finite false u) (hv : f.decode b = .finite false v) : u ≤ v := by
  obtain ⟨s, m, hs, hm, rfl, ha'⟩ := exists_decode (hab.trans_lt hb)
  obtain ⟨t, n, ht, hn, rfl, hb'⟩ := exists_decode hb
  obtain rfl : m * 2 ^ s = u := by simpa using ha'.symm.trans hu
  obtain rfl : n * 2 ^ t = v := by simpa using hb'.symm.trans hv
  have hpow := Nat.pow_succ 2 f.fractionBits
  rcases Nat.lt_trichotomy s t with hst | rfl | hts
  · calc m * 2 ^ s ≤ 2 ^ (f.fractionBits + 1) * 2 ^ s := Nat.mul_le_mul_right _ hm.le
      _ = 2 ^ f.fractionBits * 2 ^ (s + 1) := by ring
      _ ≤ n * 2 ^ t := Nat.mul_le_mul (ht.norm.resolve_left (by omega))
          (Nat.pow_le_pow_right (by omega) hst)
  · exact Nat.mul_le_mul_right _ (by omega)
  -- a longer step means bits that are larger by a whole fraction
  · have hm' := hs.norm.resolve_left (by omega)
    have : (t + 1) * 2 ^ f.fractionBits ≤ s * 2 ^ f.fractionBits := Nat.mul_le_mul_right _ hts
    rw [Nat.add_mul] at this
    omega

theorem decode_infinityBits : f.decode f.infinityBits = .infinite false := by
  have hs : ¬ f.signBit ≤ f.infinityBits := Nat.not_le.mpr infinityBits_lt_signBit
  simp only [decode, Nat.pow_eq, hs, decide_false]
  rw [infinityBits_eq, Nat.mul_div_cancel _ (by positivity), Nat.mod_eq_of_lt topExponent_lt]
  simp

/-! ## The bits of a rounded quotient -/

/-- How far a step is from a unit at the size of a quotient. -/
theorem div_shift {n : ℕ} :
    n / 2 ^ (n.log2 - f.fractionBits) < 2 ^ (f.fractionBits + 1) ∧
      (n.log2 - f.fractionBits = 0 ∨
        2 ^ f.fractionBits ≤ n / 2 ^ (n.log2 - f.fractionBits)) := by
  have hlt := Nat.lt_log2_self (n := n)
  refine ⟨?_, ?_⟩
  · rw [Nat.div_lt_iff_lt_mul (by positivity), ← Nat.pow_add]
    exact hlt.trans_le (Nat.pow_le_pow_right (by omega) (by omega))
  · rw [or_iff_not_imp_left]
    intro hs
    have hn : n ≠ 0 := by rintro rfl; simp at hs
    rw [Nat.le_div_iff_mul_le (by positivity), ← Nat.pow_add]
    exact (Nat.pow_le_pow_right (by omega) (by omega)).trans (Nat.log2_self_le hn)

theorem exists_roundUnits (num den : ℕ) :
    ∃ s m, f.IsStep s m ∧ s = (num / den).log2 - f.fractionBits ∧
      m = roundHalfEven num (den * 2 ^ s) ∧
      f.roundUnits num den = min f.infinityBits (s * 2 ^ f.fractionBits + m) := by
  refine ⟨_, _, ?_, rfl, rfl, by simp [roundUnits]⟩
  have hdiv := div_shift (f := f) (n := num / den)
  rw [Nat.div_div_eq_div_mul] at hdiv
  have hge := div_le_roundHalfEven num (den * 2 ^ ((num / den).log2 - f.fractionBits))
  have hle := roundHalfEven_le num (den * 2 ^ ((num / den).log2 - f.fractionBits))
  exact ⟨by omega, by omega⟩

theorem roundUnits_le (num den : ℕ) : f.roundUnits num den ≤ f.infinityBits :=
  Nat.min_le_left _ _

theorem roundUnits_lt_of_decode {num den u : ℕ}
    (h : f.decode (f.roundUnits num den) = .finite false u) :
    f.roundUnits num den < f.infinityBits := by
  refine (roundUnits_le _ _).lt_of_ne fun heq => ?_
  simp [heq, decode_infinityBits] at h

theorem roundUnits_mono {a b c d : ℕ} (hb : 0 < b) (hd : 0 < d) (h : a * d ≤ c * b) :
    f.roundUnits a b ≤ f.roundUnits c d := by
  obtain ⟨s, m, hs, hs', rfl, hab⟩ := exists_roundUnits (f := f) a b
  obtain ⟨t, n, ht, ht', rfl, hcd⟩ := exists_roundUnits (f := f) c d
  have hdiv : a / b ≤ c / d := by
    rw [Nat.le_div_iff_mul_le hd, ← Nat.mul_le_mul_right_iff hb]
    calc a / b * d * b = a / b * b * d := by ring
      _ ≤ a * d := Nat.mul_le_mul_right _ (Nat.div_mul_le_self a b)
      _ ≤ c * b := h
  have hst : s ≤ t := by
    have : (a / b).log2 ≤ (c / d).log2 := by
      simpa only [Nat.log2_eq_log_two] using Nat.log_mono_right hdiv
    omega
  rw [hab, hcd]
  refine min_le_min_left _ ?_
  rcases hst.lt_or_eq with hlt | rfl
  -- the longer step alone makes up for all that the shorter one can count
  · have hm := hs.le
    have hn := ht.norm.resolve_left (by omega)
    have : (s + 1) * 2 ^ f.fractionBits ≤ t * 2 ^ f.fractionBits := Nat.mul_le_mul_right _ hlt
    rw [Nat.add_mul] at this
    rw [Nat.pow_succ] at hm
    omega
  · refine Nat.add_le_add_left (roundHalfEven_mono (by positivity) (by positivity) ?_) _
    calc a * (d * 2 ^ s) = a * d * 2 ^ s := by ring
      _ ≤ c * b * 2 ^ s := Nat.mul_le_mul_right _ h
      _ = c * (b * 2 ^ s) := by ring

/-! ## Numbers that the format has -/

/-- A number of units whose digits fit the fraction. -/
def Holds (f : Format) (units : ℕ) : Prop :=
  ∃ m k, m < 2 ^ (f.fractionBits + 1) ∧ units = m * 2 ^ k

/-- A number of units that some finite bits mean. -/
def Has (f : Format) (units : ℕ) : Prop :=
  ∃ bits < f.infinityBits, f.decode bits = .finite false units

theorem Holds.shift_dvd {u : ℕ} (h : f.Holds u) : 2 ^ (u.log2 - f.fractionBits) ∣ u := by
  obtain ⟨m, k, hm, rfl⟩ := h
  rcases Nat.eq_zero_or_pos m with rfl | hpos
  · simp
  have hlog : (m * 2 ^ k).log2 < f.fractionBits + 1 + k := by
    rw [Nat.log2_lt (by positivity), Nat.pow_add]
    exact Nat.mul_lt_mul_of_pos_right hm (by positivity)
  exact (Nat.pow_dvd_pow 2 (by omega)).trans (Dvd.intro_left m rfl)

/-- A number whose digits fit is its own rounding, unless it is too large. -/
theorem Holds.decode_roundUnits {u d : ℕ} (h : f.Holds u) (hd : 0 < d)
    (hlt : f.roundUnits (u * d) d < f.infinityBits) :
    f.decode (f.roundUnits (u * d) d) = .finite false u := by
  obtain ⟨s, m, hstep, hs, hm, hround⟩ := exists_roundUnits (f := f) (u * d) d
  rw [Nat.mul_div_cancel _ hd] at hs
  have hexact : m * 2 ^ s = u := by
    obtain ⟨n, hn⟩ := h.shift_dvd
    rw [← hs] at hn
    rw [hm, hn, show 2 ^ s * n * d = n * (d * 2 ^ s) by ring,
      roundHalfEven_mul_self _ (by positivity), Nat.mul_comm]
  rw [hround] at hlt ⊢
  have hlt := (min_lt_iff.mp hlt).resolve_left (Nat.lt_irrefl _)
  rw [Nat.min_eq_right hlt.le, decode_of_isStep hstep hlt, hexact]

/-- The bits come back from the number that they mean. -/
theorem roundUnits_of_decode {bits u : ℕ} (h : bits < f.infinityBits)
    (hu : f.decode bits = .finite false u) : f.roundUnits u 1 = bits := by
  obtain ⟨s, m, hstep, hm, rfl, hdecode⟩ := exists_decode h
  obtain rfl : m * 2 ^ s = u := by simpa using hdecode.symm.trans hu
  obtain ⟨t, n, -, ht, rfl, hround⟩ := exists_roundUnits (f := f) (m * 2 ^ s) 1
  have hs : t = s := by
    rw [ht, Nat.div_one]
    rcases hstep.norm with rfl | hge
    · have : m.log2 < f.fractionBits + 1 := by
        rcases Nat.eq_zero_or_pos m with rfl | hpos
        · simp
        · exact (Nat.log2_lt hpos.ne').mpr hm
      simp only [Nat.pow_zero, Nat.mul_one]
      omega
    · have hpos : 0 < m := lt_of_lt_of_le (by positivity) hge
      have hlog : (m * 2 ^ s).log2 = f.fractionBits + s := by
        rw [Nat.log2_eq_iff (by positivity), Nat.pow_add, Nat.add_right_comm, Nat.pow_add]
        exact ⟨Nat.mul_le_mul_right _ hge, Nat.mul_lt_mul_of_pos_right hm (by positivity)⟩
      omega
  rw [hround, hs, Nat.one_mul, roundHalfEven_mul_self _ (by positivity), Nat.min_eq_right h.le]

namespace Has

variable {u : ℕ}

theorem holds (h : f.Has u) : f.Holds u := by
  obtain ⟨bits, hlt, hu⟩ := h
  obtain ⟨s, m, -, hm, -, hdecode⟩ := exists_decode hlt
  exact ⟨m, s, hm, by simpa using (hdecode.symm.trans hu).symm⟩

theorem lt (h : f.Has u) : u < 2 ^ (f.fractionBits + f.topExponent) := by
  obtain ⟨bits, hlt, hu⟩ := h
  obtain ⟨s, m, -, hm, rfl, hdecode⟩ := exists_decode hlt
  obtain rfl : m * 2 ^ s = u := by simpa using hdecode.symm.trans hu
  have hs : s < f.topExponent := by
    rw [infinityBits_eq] at hlt
    exact Nat.lt_of_mul_lt_mul_right ((Nat.le_add_right _ _).trans_lt hlt)
  calc m * 2 ^ s < 2 ^ (f.fractionBits + 1) * 2 ^ s :=
        Nat.mul_lt_mul_of_pos_right hm (by positivity)
    _ = 2 ^ (f.fractionBits + (s + 1)) := by ring
    _ ≤ 2 ^ (f.fractionBits + f.topExponent) := Nat.pow_le_pow_right (by omega) (by omega)

variable {a d : ℕ}

/-- What does not lie above a aber of the format does not round to above it. -/
theorem round_le (h : f.Has u) (hd : 0 < d) (hle : a ≤ u * d) :
    ∃ v ≤ u, f.Has v ∧ f.decode (f.roundUnits a d) = .finite false v := by
  obtain ⟨bits, hlt, hu⟩ := h
  have hbits : f.roundUnits a d ≤ bits := by
    rw [← roundUnits_of_decode hlt hu]
    exact roundUnits_mono hd Nat.one_pos (by simpa using hle)
  obtain ⟨s, m, -, -, -, hv⟩ := exists_decode (hbits.trans_lt hlt)
  exact ⟨_, units_le_of_le hbits hlt hv hu, ⟨_, hbits.trans_lt hlt, hv⟩, hv⟩

/-- What does not lie below a aber of the format does not round to below it. -/
theorem le_round (h : f.Has u) (hd : 0 < d) (hle : u * d ≤ a) {v : ℕ}
    (hv : f.decode (f.roundUnits a d) = .finite false v) : u ≤ v := by
  obtain ⟨bits, hlt, hu⟩ := h
  have hbits : bits ≤ f.roundUnits a d := by
    rw [← roundUnits_of_decode hlt hu]
    exact roundUnits_mono Nat.one_pos hd (by simpa using hle)
  exact units_le_of_le hbits (roundUnits_lt_of_decode hv) hu hv

end Has

/-! ## The sign -/

end Format

/-- The datum of the same size with another sign. -/
def Datum.withSign (negative : Bool) : Datum → Datum
  | .nan => .nan
  | .infinite _ => .infinite negative
  | .finite _ units => .finite negative units

namespace Format

variable {f : Format}

theorem decode_add_sign {bits : ℕ} (negative : Bool) (h : bits < f.signBit) :
    f.decode (bits + if negative then f.signBit else 0) = (f.decode bits).withSign negative := by
  have hdecode (b : ℕ) (s : Bool) (hs : decide (f.signBit ≤ b) = s)
      (hf : b % 2 ^ f.fractionBits = bits % 2 ^ f.fractionBits)
      (he : b / 2 ^ f.fractionBits % 2 ^ f.exponentBits =
        bits / 2 ^ f.fractionBits % 2 ^ f.exponentBits) :
      f.decode b = (f.decode bits).withSign s := by
    simp only [decode, Nat.pow_eq, hf, he, hs]
    split_ifs <;> rfl
  cases negative
  · exact hdecode _ _ (by simpa using h) rfl rfl
  -- the sign bit stands above both fields
  · have hsign : f.signBit = 2 ^ f.fractionBits * 2 ^ f.exponentBits := by
      rw [signBit, Nat.pow_eq, Nat.pow_add, Nat.mul_comm]
    refine hdecode _ _ (by simp) ?_ ?_
    · simp [hsign]
    · simp [hsign, Nat.add_mul_div_left]

/-- Rounding never gives what is not a number. -/
theorem decode_roundUnits_ne_nan (num den : ℕ) : f.decode (f.roundUnits num den) ≠ .nan := by
  rcases (roundUnits_le (f := f) num den).lt_or_eq with hlt | heq
  · simp [decode_of_lt hlt]
  · simp [heq, decode_infinityBits]

/-- Without their sign the bits of a finite number are below infinity. -/
theorem has_of_decode {bits u : ℕ} {negative : Bool} (h : f.decode bits = .finite negative u) :
    f.Has u := by
  have hfraction : bits % f.signBit % 2 ^ f.fractionBits = bits % 2 ^ f.fractionBits :=
    Nat.mod_mod_of_dvd _ (Nat.pow_dvd_pow 2 (by omega))
  have hexponent : bits % f.signBit / 2 ^ f.fractionBits =
      bits / 2 ^ f.fractionBits % 2 ^ f.exponentBits := by
    rw [signBit, Nat.pow_eq, Nat.add_comm, Nat.pow_add, Nat.mod_mul_right_div_self]
  have htop : bits / 2 ^ f.fractionBits % 2 ^ f.exponentBits ≠ f.topExponent := by
    intro htop
    simp only [decode, Nat.pow_eq, htop, if_true] at h
    split_ifs at h
  have hlt : bits % f.signBit < f.infinityBits := by
    rw [infinityBits_eq, ← Nat.div_lt_iff_lt_mul (by positivity), hexponent]
    have := Nat.mod_lt (bits / 2 ^ f.fractionBits) (show 0 < 2 ^ f.exponentBits by positivity)
    simp only [topExponent, Nat.pow_eq] at htop ⊢
    omega
  refine ⟨_, hlt, ?_⟩
  rw [decode_of_lt hlt, hexponent, hfraction]
  simp only [decode, Nat.pow_eq, htop, if_false] at h
  split_ifs at h ⊢ with h0 <;> simpa using (Datum.finite.inj h).2

/-- Rounding gives a number with the wanted sign, or infinity. -/
theorem decode_round (negative : Bool) (num den : ℕ) :
    f.decode (f.round negative num den) =
      (f.decode (f.roundUnits (num * 2 ^ f.unitBits) den)).withSign negative := by
  rw [round, Nat.pow_eq]
  exact decode_add_sign negative ((roundUnits_le _ _).trans_lt infinityBits_lt_signBit)

end Format
end InstrumentBus.Number
