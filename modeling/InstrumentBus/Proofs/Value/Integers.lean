import Mathlib
import InstrumentBus.Value.Conversion

/-!
# Integer values

A value of one of the eight integer kinds denotes an integer of the kind's range
(`ValueType.integers`), and the kind and the integer determine the value (`Value.eq_of_integer?`).
What is read as an integer is the value of a wanted kind that denotes it, if the integer is in the
kind's range, and is refused if not: `Value.asType_of_toInteger`.
-/

namespace InstrumentBus

open Number

/-- The integers that values of a kind denote. -/
def ValueType.integers : ValueType → Set ℤ
  | .u8 => Set.Ico 0 (2 ^ 8)
  | .u16 => Set.Ico 0 (2 ^ 16)
  | .u32 => Set.Ico 0 (2 ^ 32)
  | .u64 => Set.Ico 0 (2 ^ 64)
  | .i8 => Set.Ico (-2 ^ 7) (2 ^ 7)
  | .i16 => Set.Ico (-2 ^ 15) (2 ^ 15)
  | .i32 => Set.Ico (-2 ^ 31) (2 ^ 31)
  | .i64 => Set.Ico (-2 ^ 63) (2 ^ 63)
  | _ => ∅

namespace Value

variable {v w : Value} {type : ValueType} {n : ℤ}

/-! ## The integer that a value denotes -/

theorem isInteger_of_integer? (h : v.integer? = some n) : v.type.isInteger = true := by
  cases v with
  | null | str _ | json _ | bin _ | f32 _ | f64 _ => cases h
  | _ => rfl

theorem exists_integer? (h : v.type.isInteger = true) : ∃ n, v.integer? = some n := by
  cases v with
  | null | str _ | json _ | bin _ | f32 _ | f64 _ => cases h
  | _ => exact ⟨_, rfl⟩

theorem mem_integers_of_integer? (h : v.integer? = some n) : n ∈ v.type.integers := by
  cases v with
  | null | str _ | json _ | bin _ | f32 _ | f64 _ => cases h
  | u8 m | u16 m | u32 m | u64 m =>
    obtain rfl := Option.some.inj h
    exact ⟨Int.natCast_nonneg _, by exact_mod_cast m.toNat_lt⟩
  | i8 m | i16 m | i32 m | i64 m =>
    obtain rfl := Option.some.inj h
    exact ⟨m.le_toInt, m.toInt_lt⟩

/-- Values hold integers of 64 bits. -/
theorem natAbs_integer?_le (h : v.integer? = some n) : n.natAbs ≤ 2 ^ 64 := by
  have hmem := mem_integers_of_integer? h
  generalize v.type = type at hmem
  cases type with
  | null | str | json | bin | f32 | f64 => cases hmem
  | _ =>
    have hlow := hmem.1
    have hhigh := hmem.2
    omega

/-- Widening keeps the integer. -/
theorem integer?_widen (v : Value) : v.widen.integer? = v.integer? := by
  cases v with
  | i8 m => exact congrArg some m.toInt_toInt64
  | i16 m => exact congrArg some m.toInt_toInt64
  | i32 m => exact congrArg some m.toInt_toInt64
  | _ => rfl

/-! ## The value of a kind that denotes an integer -/

theorem type_of_ofInteger? (h : ofInteger? type n = some w) : w.type = type := by
  cases type <;> simp only [ofInteger?, reduceCtorEq] at h
  all_goals
    split_ifs at h
    obtain rfl := Option.some.inj h
    rfl

theorem exists_ofInteger? (h : n ∈ type.integers) :
    ∃ w, ofInteger? type n = some w ∧ w.integer? = some n := by
  cases type with
  | null | str | json | bin | f32 | f64 => cases h
  | u8 | u16 | u32 | u64 =>
    refine ⟨_, if_pos h, congrArg some ?_⟩
    have hlt := h.2
    have hnonneg := h.1
    simp only [UInt8.toNat_ofNat', UInt16.toNat_ofNat', UInt32.toNat_ofNat', UInt64.toNat_ofNat']
    omega
  | i8 => exact ⟨_, if_pos h, congrArg some (Int8.toInt_ofInt_of_le h.1 h.2)⟩
  | i16 => exact ⟨_, if_pos h, congrArg some (Int16.toInt_ofInt_of_le h.1 h.2)⟩
  | i32 => exact ⟨_, if_pos h, congrArg some (Int32.toInt_ofInt_of_le h.1 h.2)⟩
  | i64 => exact ⟨_, if_pos h, congrArg some (Int64.toInt_ofInt_of_le h.1 h.2)⟩

theorem ofInteger?_eq_none (h : n ∉ type.integers) : ofInteger? type n = none := by
  cases type with
  | null | str | json | bin | f32 | f64 => rfl
  | _ => exact if_neg h

theorem ofInteger?_of_integer? (h : v.integer? = some n) : ofInteger? v.type n = some v := by
  have hmem := mem_integers_of_integer? h
  cases v with
  | null | str _ | json _ | bin _ | f32 _ | f64 _ => cases h
  | u8 m | u16 m | u32 m | u64 m =>
    have hm : (m.toNat : ℤ) = n := Option.some.inj h
    refine (if_pos hmem).trans ?_
    simp [← hm]
  | i8 m | i16 m | i32 m | i64 m =>
    have hm : m.toInt = n := Option.some.inj h
    refine (if_pos hmem).trans ?_
    simp [← hm]

/-- The kind and the integer determine the value. -/
theorem eq_of_integer? (htype : v.type = w.type) (hv : v.integer? = some n)
    (hw : w.integer? = some n) : v = w := by
  have hmade := ofInteger?_of_integer? hv
  rw [htype, ofInteger?_of_integer? hw] at hmade
  exact (Option.some.inj hmade).symm

/-! ## Reading a value as a value of a kind -/

theorem asType_type (v : Value) : v.asType v.type = .ok v := by
  unfold asType
  exact if_pos rfl

/-- A value that is read as a value of a kind is of that kind. -/
theorem type_of_asType (h : v.asType type = .ok w) : w.type = type := by
  unfold asType at h
  split at h
  · exact Except.ok.inj h ▸ ‹v.type = type›
  split at h
  case h_1 | h_2 => cases h
  -- text and documents are read as one another, and nothing else is
  case h_3 | h_4 => split at h <;> cases h; rfl
  case h_5 | h_6 =>
    cases hdouble : v.toDouble with
    | error e => simp [hdouble, Except.map] at h
    | ok x =>
      rw [hdouble] at h
      exact Except.ok.inj h ▸ rfl
  case h_7 =>
    split at h
    · cases h
    · split at h
      · exact Except.ok.inj h ▸ type_of_ofInteger? ‹_›
      · cases h

theorem toInteger_of_integer? (h : v.integer? = some n) : v.toInteger = .ok n := by
  unfold toInteger
  rw [h]

/-- A value that is read as an integer becomes the value of the kind that denotes it, if there is
one, also if it is of that kind already. -/
theorem asType_eq_ofInteger? (htype : type.isInteger = true) (h : v.toInteger = .ok n) :
    v.asType type = (ofInteger? type n).elim (.error .parameterInvalid) .ok := by
  by_cases hsame : v.type = type
  · subst hsame
    obtain ⟨m, hm⟩ := exists_integer? htype
    obtain rfl : m = n := Except.ok.inj ((toInteger_of_integer? hm).symm.trans h)
    rw [asType_type, ofInteger?_of_integer? hm, Option.elim_some]
  · unfold asType
    rw [if_neg hsame]
    cases type with
    | null | str | json | bin | f32 | f64 => cases htype
    | _ =>
      simp only [h]
      cases ofInteger? _ n <;> rfl

theorem asType_of_toInteger (htype : type.isInteger = true) (h : v.toInteger = .ok n) :
    (n ∈ type.integers → ∃ w, v.asType type = .ok w ∧ w.type = type ∧ w.integer? = some n) ∧
      (n ∉ type.integers → v.asType type = .error .parameterInvalid) := by
  rw [asType_eq_ofInteger? htype h]
  constructor
  · intro hmem
    obtain ⟨w, hw, hn⟩ := exists_ofInteger? hmem
    exact ⟨w, by rw [hw, Option.elim_some], type_of_ofInteger? hw, hn⟩
  · intro hmem
    rw [ofInteger?_eq_none hmem, Option.elim_none]

end Value
end InstrumentBus
