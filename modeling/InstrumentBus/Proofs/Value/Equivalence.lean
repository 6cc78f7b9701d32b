import InstrumentBus.Proofs.Value.Equality
import InstrumentBus.Proofs.Value.Integers

/-!
# Equivalent values

Two values are equivalent exactly if they mean the same (`Value.equiv_iff_meaning`): the same text,
document or bytes, the same integer whatever kind holds it, or the same floating-point number, the
two zeros being one. What is not a number is equivalent to nothing, and apart from it equivalence is
an equivalence relation. Values of one kind that mean the same are equal (`Value.beq_iff`).
-/

namespace InstrumentBus

open Number

/-- What a value means, whatever kind of values says it. -/
inductive Meaning
  | null
  | text (s : String)
  | document (s : String)
  | bytes (b : ByteArray)
  | integer (n : ℤ)
  | number (q : ℚ)
  | infinite (negative : Bool)
  | nan

/-- The sorts of meanings. A floating-point number is of another sort than an integer. -/
inductive Family
  | null
  | text
  | document
  | bytes
  | integer
  | float
  deriving DecidableEq

/-- The kind of a family with the most bits; of the integers, the one without a sign. -/
def Family.widest : Family → ValueType
  | null => .null
  | text => .str
  | document => .json
  | bytes => .bin
  | integer => .u64
  | float => .f64

def Meaning.family : Meaning → Family
  | null => .null
  | text _ => .text
  | document _ => .document
  | bytes _ => .bytes
  | integer _ => .integer
  | number _ | infinite _ | nan => .float

def ValueType.family : ValueType → Family
  | null => .null
  | str => .text
  | json => .document
  | bin => .bytes
  | f32 | f64 => .float
  | u8 | u16 | u32 | u64 | i8 | i16 | i32 | i64 => .integer

/-- The meaning of a floating-point number whose unit is two to the minus `unitBits`. -/
def Number.Datum.meaning (unitBits : ℕ) (x : Datum) : Meaning :=
  match x with
  | .nan => .nan
  | .infinite negative => .infinite negative
  | .finite negative units => .number (signed negative units / 2 ^ unitBits)

def Value.meaning : Value → Meaning
  | .null => .null
  | .str s => .text s
  | .json s => .document s
  | .bin b => .bytes b
  | .f32 x => x.datum.meaning Format.single.unitBits
  | .f64 x => x.datum.meaning Format.double.unitBits
  | v => (v.integer?.map Meaning.integer).getD .null

namespace Number

variable {x : Single} {s : Bool}

/-- Numbers of one format are equal if they mean the same and are numbers at all. -/
theorem Datum.equal_iff_meaning (unitBits : ℕ) (x y : Datum) :
    x.equal y = true ↔ x.meaning unitBits = y.meaning unitBits ∧ x.meaning unitBits ≠ .nan := by
  cases x with
  | nan => simp [equal, compare, meaning]
  | infinite s =>
    cases y with
    | nan => simp [equal, compare, meaning]
    | infinite t => cases s <;> cases t <;> simp [equal, compare, meaning]
    | finite t n => cases s <;> simp [equal, compare, meaning]
  | finite s m =>
    cases y with
    | nan => simp [equal, compare, meaning]
    | infinite t => cases t <;> simp [equal, compare, meaning]
    | finite t n =>
      have hunit : (2 ^ unitBits : ℚ) ≠ 0 := by positivity
      simp [equal, compare, meaning, div_left_inj' hunit]

theorem Datum.family_meaning (unitBits : ℕ) (x : Datum) : (x.meaning unitBits).family = .float := by
  cases x <;> rfl

/-- A single means the same as a double. -/
theorem Single.meaning_toDouble (x : Single) :
    x.toDouble.datum.meaning Format.double.unitBits = x.datum.meaning Format.single.unitBits := by
  have hexact := toRat?_toDouble x
  cases hx : x.datum with
  | nan =>
    have hnan := isNaN_toDouble hx
    rw [Double.isNaN, beq_iff_eq] at hnan
    rw [hnan]
    rfl
  | infinite s =>
    have hinfinite : x.toDouble.datum = .infinite s := by
      rw [toDouble, hx]
      cases s <;> decide +kernel
    rw [hinfinite]
    rfl
  | finite s u =>
    rw [toRat?, hx] at hexact
    obtain ⟨t, v, hv, hq⟩ := Double.toRat?_eq_some_iff.mp hexact
    rw [hv]
    exact congrArg Meaning.number hq.symm

end Number

namespace Value

variable {v w : Value} {m n : ℤ}

/-! ## Equality of one kind -/

theorem meaning_eq_integer_iff : v.meaning = .integer n ↔ v.integer? = some n := by
  cases v with
  | null | str _ | json _ | bin _ => simp [meaning, integer?]
  | f32 x | f64 x =>
    have hfamily := x.datum.family_meaning
    simp only [integer?, reduceCtorEq, iff_false]
    intro h
    have := hfamily _ ▸ congrArg Meaning.family h
    cases this
  | _ m => simp [meaning, integer?]

theorem integer?_congr (h : v.meaning = w.meaning) : v.integer? = w.integer? := by
  ext n
  rw [← meaning_eq_integer_iff, ← meaning_eq_integer_iff, h]

theorem family_meaning (v : Value) : v.meaning.family = v.type.family := by
  cases v with
  | f32 x | f64 x => exact x.datum.family_meaning _
  | _ => rfl

/-- Apart from floating-point numbers, the kind and the meaning determine the value. -/
theorem eq_of_meaning (htype : v.type = w.type) (hfloat : v.type.isFloat = false)
    (h : v.meaning = w.meaning) : v = w := by
  cases v with
  | f32 _ | f64 _ => cases hfloat
  | null =>
    cases w with
    | null => rfl
    | _ => cases htype
  | str s =>
    cases w with
    | str t => exact congrArg str (Meaning.text.inj h)
    | _ => cases htype
  | json s =>
    cases w with
    | json t => exact congrArg json (Meaning.document.inj h)
    | _ => cases htype
  | bin b =>
    cases w with
    | bin c => exact congrArg bin (Meaning.bytes.inj h)
    | _ => cases htype
  | _ m => exact eq_of_integer? htype rfl (meaning_eq_integer_iff.mp h.symm)

theorem meaning_ne_nan (hfloat : v.type.isFloat = false) : v.meaning ≠ .nan := by
  intro h
  have hfamily := family_meaning v
  rw [h] at hfamily
  cases v with
  | f32 _ | f64 _ => cases hfloat
  | _ => cases hfamily

/-- Values are equal if they are of one kind and mean the same, and are not what is no number. -/
theorem beq_iff : (v == w) = true ↔ v.type = w.type ∧ v.meaning = w.meaning ∧ v.meaning ≠ .nan := by
  cases hfloat : v.type.isFloat with
  | false =>
    constructor
    · intro h
      rcases beq_cases h with rfl | ⟨x, y, rfl, rfl, -⟩ | ⟨x, y, rfl, rfl, -⟩
      · exact ⟨rfl, rfl, meaning_ne_nan hfloat⟩
      · cases hfloat
      · cases hfloat
    · rintro ⟨htype, h, -⟩
      obtain rfl := eq_of_meaning htype hfloat h
      cases v with
      | f32 _ | f64 _ => cases hfloat
      | _ =>
        change same _ _ = true
        simp [same]
  | true =>
    cases v with
    | f32 x =>
      cases w with
      | f32 y => exact (Datum.equal_iff_meaning _ _ _).trans (and_iff_right rfl).symm
      | _ => exact iff_of_false (by simp [BEq.beq, same]) (by simp [type])
    | f64 x =>
      cases w with
      | f64 y => exact (Datum.equal_iff_meaning _ _ _).trans (and_iff_right rfl).symm
      | _ => exact iff_of_false (by simp [BEq.beq, same]) (by simp [type])
    | _ => cases hfloat

/-! ## Values with 64 bits -/

theorem meaning_widen (v : Value) : v.widen.meaning = v.meaning := by
  cases v with
  | f32 x => exact x.meaning_toDouble
  | i8 m => exact congrArg Meaning.integer m.toInt_toInt64
  | i16 m => exact congrArg Meaning.integer m.toInt_toInt64
  | i32 m => exact congrArg Meaning.integer m.toInt_toInt64
  | _ => rfl

theorem type_widen (h : v.integer? = none) : v.widen.type = v.type.family.widest := by
  cases v with
  | null | str _ | json _ | bin _ | f32 _ | f64 _ => rfl
  | _ => cases h

/-- An integer with 64 bits is an unsigned or a signed one. -/
theorem exists_widen_of_integer? (h : v.integer? = some n) :
    (∃ k : UInt64, v.widen = u64 k ∧ (k.toNat : ℤ) = n) ∨
      ∃ k : Int64, v.widen = i64 k ∧ k.toInt = n := by
  rw [← integer?_widen] at h
  cases v with
  | null | str _ | json _ | bin _ | f32 _ | f64 _ => cases h
  | u8 m | u16 m | u32 m | u64 m => exact .inl ⟨_, rfl, Option.some.inj h⟩
  | i8 m | i16 m | i32 m | i64 m => exact .inr ⟨_, rfl, Option.some.inj h⟩

/-- A signed integer that is not negative keeps its value when it is taken as an unsigned one. -/
theorem cast_eq_iff (a : UInt64) (b : Int64) :
    (decide (0 ≤ b) && a == b.toUInt64) = true ↔ (a.toNat : ℤ) = b.toInt := by
  have hunsigned (hb : 0 ≤ b) : (b.toUInt64.toNat : ℤ) = b.toInt := by
    rw [Int64.toNat_toUInt64_of_le hb]
    exact Int.toNat_of_nonneg (Int64.le_iff_toInt_le.mp hb)
  rw [Bool.and_eq_true, decide_eq_true_iff, beq_iff_eq]
  constructor
  · rintro ⟨hb, rfl⟩
    exact hunsigned hb
  · intro h
    have hb : 0 ≤ b := Int64.le_iff_toInt_le.mpr (h ▸ Int.natCast_nonneg _)
    exact ⟨hb, UInt64.toNat_inj.mp (Int.ofNat.inj (h.trans (hunsigned hb).symm))⟩

/-! ## Equivalence -/

theorem equiv_of_integer? (hv : v.integer? = some m) (hw : w.integer? = some n) :
    v.equiv w = true ↔ m = n := by
  rcases exists_widen_of_integer? hv with ⟨a, ha, rfl⟩ | ⟨a, ha, rfl⟩ <;>
    rcases exists_widen_of_integer? hw with ⟨b, hb, rfl⟩ | ⟨b, hb, rfl⟩ <;>
    rw [equiv, ha, hb]
  · simp [beq_iff, type, meaning, integer?]
  · exact cast_eq_iff a b
  · exact (cast_eq_iff b a).trans eq_comm
  · simp [beq_iff, type, meaning, integer?]

theorem equiv_eq_beq (h : v.integer? = none ∨ w.integer? = none) :
    v.equiv w = (v.widen == w.widen) := by
  rw [← integer?_widen v, ← integer?_widen w] at h
  unfold equiv
  split
  · rename_i hv hw
    rw [hv, hw] at h
    rcases h with h | h <;> cases h
  · rename_i hv hw
    rw [hv, hw] at h
    rcases h with h | h <;> cases h
  · rfl

/-- Values are equivalent if they mean the same, and are not what is no number. -/
theorem equiv_iff_meaning : v.equiv w = true ↔ v.meaning = w.meaning ∧ v.meaning ≠ .nan := by
  by_cases hother : v.integer? = none ∨ w.integer? = none
  · rw [equiv_eq_beq hother, beq_iff, meaning_widen, meaning_widen]
    -- what means the same is of one kind after widening
    refine and_iff_right_of_imp ?_
    rintro ⟨h, -⟩
    rw [integer?_congr h, or_self] at hother
    rw [type_widen (integer?_congr h ▸ hother), type_widen hother, ← family_meaning,
      ← family_meaning, h]
  · rw [not_or, ← ne_eq, ← ne_eq, Option.ne_none_iff_exists', Option.ne_none_iff_exists'] at hother
    obtain ⟨⟨m, hm⟩, n, hn⟩ := hother
    rw [equiv_of_integer? hm hn, meaning_eq_integer_iff.mpr hm, meaning_eq_integer_iff.mpr hn]
    simp

/-- Apart from floating-point numbers, a value is equivalent to those that mean the same. -/
theorem equiv_iff_of_not_isFloat (hfloat : v.type.isFloat = false) :
    v.equiv w = true ↔ v.meaning = w.meaning :=
  equiv_iff_meaning.trans (and_iff_left (meaning_ne_nan hfloat))

theorem equiv_comm (v w : Value) : v.equiv w = w.equiv v := by
  rw [Bool.eq_iff_iff, equiv_iff_meaning, equiv_iff_meaning]
  constructor <;>
  · rintro ⟨h, hnan⟩
    exact ⟨h.symm, h ▸ hnan⟩

/-- Values that mean the same are equivalent to the same values. -/
theorem equiv_congr (h : v.meaning = w.meaning) (u : Value) : v.equiv u = w.equiv u := by
  rw [Bool.eq_iff_iff, equiv_iff_meaning, equiv_iff_meaning, h]

/-- Equivalence compares what values mean: it is symmetric and follows from equality; integers of
any kinds are equivalent if they are the same integer, and texts, documents and bytes if they have
the same contents; values of different families never are; and apart from floating-point numbers,
which need not be equivalent to themselves, it is an equivalence relation. -/
theorem equiv_semantic :
    (∀ v w : Value, v.equiv w = true ↔ v.meaning = w.meaning ∧ v.meaning ≠ .nan) ∧
      (∀ v w : Value, v.equiv w = w.equiv v) ∧
      (∀ v w : Value, (v == w) = true → v.equiv w = true) ∧
      (∀ (v w : Value) (m n : ℤ), v.integer? = some m → w.integer? = some n →
        (v.equiv w = true ↔ m = n)) ∧
      (∀ s t : String, ((str s).equiv (str t) = true ↔ s = t) ∧
        ((json s).equiv (json t) = true ↔ s = t)) ∧
      (∀ a b : ByteArray, (bin a).equiv (bin b) = true ↔ a = b) ∧
      (∀ v w : Value, v.type.family ≠ w.type.family → v.equiv w = false) ∧
      Equivalence fun v w : {v : Value // v.type.isFloat = false} => v.val.equiv w.val = true := by
  refine ⟨fun v w => equiv_iff_meaning, equiv_comm, ?_, fun v w m n => equiv_of_integer?,
    ?_, ?_, ?_, ?_⟩
  · intro v w h
    exact equiv_iff_meaning.mpr (beq_iff.mp h).2
  · intro s t
    rw [equiv_iff_of_not_isFloat rfl, equiv_iff_of_not_isFloat rfl]
    exact ⟨by simp [meaning], by simp [meaning]⟩
  · intro a b
    rw [equiv_iff_of_not_isFloat rfl]
    simp [meaning]
  · intro v w hfamily
    rw [Bool.eq_false_iff, ne_eq, equiv_iff_meaning]
    rintro ⟨h, -⟩
    rw [← family_meaning, ← family_meaning, h] at hfamily
    exact hfamily rfl
  · refine ⟨fun v => ?_, fun {v w} h => ?_, fun {u v w} h h' => ?_⟩
    · exact (equiv_iff_of_not_isFloat v.property).mpr rfl
    · rwa [equiv_comm]
    · rw [equiv_iff_of_not_isFloat u.property] at h ⊢
      exact h.trans ((equiv_iff_of_not_isFloat v.property).mp h')

/-- The largest signed integer is equivalent to the unsigned one with its value, and minus one is
not equivalent to the unsigned integer with its bits. -/
theorem equiv_across_signs :
    (i64 0x7fffffffffffffff).equiv (u64 0x7fffffffffffffff) = true ∧
      (u64 0xffffffffffffffff).equiv (i8 (-1)) = false := by
  obtain ⟨-, -, -, hinteger, -⟩ := equiv_semantic
  constructor
  · exact (hinteger _ _ _ _ rfl rfl).mpr rfl
  · rw [Bool.eq_false_iff, ne_eq, hinteger _ _ _ _ rfl rfl]
    decide

end Value
end InstrumentBus
