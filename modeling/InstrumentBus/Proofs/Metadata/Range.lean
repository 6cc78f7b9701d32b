import InstrumentBus.Proofs.Json.Numeric
import InstrumentBus.Proofs.Metadata.Check

/-!
# Ranges of metadata documents

A document's bounds are rational numbers, and so is each number that is checked against them, but
the check compares the doubles nearest to them. A double passes on no wrong side of another
(`Double.toRat?_ofInt_sides`), so the only numbers that are taken although they lie outside are
those that round onto a bound: `accepted_inRange_iff`. These are integers of more than 53 bits
(`accepted_inRange_of_natAbs_le`). What is not a number compares with no bound and is taken as well.
-/

namespace InstrumentBus

open Number Json

/-- The rational number that a value is. -/
def Value.toRat? : Value → Option ℚ
  | .f32 x => x.toRat?
  | .f64 x => x.toRat?
  | v => v.integer?.map fun n => (n : ℚ)

namespace Metadata

/-! ## The bounds that a document gives -/

/-- All bounds are rational numbers. -/
def FiniteRange (doc : Metadata) : Prop :=
  ∀ bounds, doc.range = some bounds → ∀ x ∈ bounds, x.IsFinite

theorem isFinite_bound? {text : Syntax} {x : Double} (h : bound? text = some x) : x.IsFinite := by
  unfold bound? at h
  split at h
  · obtain ⟨n, hn, rfl⟩ := Option.map_eq_some_iff.mp h
    exact Numeric.isFinite_toDouble hn
  · cases h

theorem isFinite_of_mapM_bound? {items : List Syntax} {bounds : List Double}
    (h : items.mapM bound? = some bounds) {x : Double} (hx : x ∈ bounds) : x.IsFinite := by
  induction items generalizing bounds with
  | nil => simp_all
  | cons item items ih =>
    simp only [List.mapM_cons, Option.bind_eq_bind, Option.bind_eq_some_iff] at h
    obtain ⟨y, hy, ys, hys, hbounds⟩ := h
    obtain rfl := Option.some.inj hbounds
    rcases List.mem_cons.mp hx with rfl | hx
    · exact isFinite_bound? hy
    · exact ih hys hx

theorem FiniteRange.set {doc doc' : Metadata} {text : Syntax} {field : Field}
    (hdoc : doc.FiniteRange) (h : field.set doc text = some doc') : doc'.FiniteRange := by
  cases field with
  | range =>
    obtain ⟨v, hv, rfl⟩ := Option.map_eq_some_iff.mp h
    rintro bounds rfl x hx
    unfold field? at hv
    split at hv
    · cases hv
    · obtain ⟨_, hrange, hbounds⟩ := Option.map_eq_some_iff.mp hv
      obtain rfl := Option.some.inj hbounds
      unfold range? at hrange
      split at hrange
      · exact isFinite_of_mapM_bound? hrange hx
      · cases hrange
  | _ =>
    obtain ⟨v, -, rfl⟩ := Option.map_eq_some_iff.mp h
    exact hdoc

theorem FiniteRange.ofMembers? {members : List (List StringPart × Syntax)} {doc doc' : Metadata}
    {seen : List Field} (hdoc : doc.FiniteRange) (h : ofMembers? doc seen members = some doc') :
    doc'.FiniteRange := by
  induction members generalizing doc seen with
  | nil => exact Option.some.inj h ▸ hdoc
  | cons member members ih =>
    obtain ⟨name, -, h⟩ := Option.bind_eq_some_iff.mp h
    split at h
    · exact ih hdoc h
    · split_ifs at h
      obtain ⟨next, hnext, h⟩ := Option.bind_eq_some_iff.mp h
      exact ih (hdoc.set hnext) h

theorem FiniteRange.ofItems? {items : List Syntax} {doc doc' : Metadata} {fields : List Field}
    (hdoc : doc.FiniteRange) (h : ofItems? doc fields items = some doc') : doc'.FiniteRange := by
  induction items generalizing doc fields with
  | nil => cases fields <;> exact Option.some.inj h ▸ hdoc
  | cons item items ih =>
    cases fields with
    | nil => cases h
    | cons field fields =>
      obtain ⟨next, hnext, h⟩ := Option.bind_eq_some_iff.mp h
      exact ih (hdoc.set hnext) h

theorem read_finiteRange {text : String} {doc : Metadata} (h : read text = .ok doc) :
    doc.FiniteRange := by
  have hempty : FiniteRange {} := fun _ h => by cases h
  unfold read at h
  split at h
  · rename_i doc' hdoc
    obtain rfl := Except.ok.inj h
    obtain ⟨text, -, hdoc⟩ := Option.bind_eq_some_iff.mp hdoc
    unfold ofSyntax? at hdoc
    split at hdoc
    · exact hempty.ofMembers? hdoc
    · exact hempty.ofItems? hdoc
    · cases hdoc
  · cases h

/-! ## What the check lets through -/

/-- The value is a number between the bounds, both taken in. -/
def InRange (low high : Double) (v : Value) : Prop :=
  ∃ lo hi q, low.toRat? = some lo ∧ high.toRat? = some hi ∧ v.toRat? = some q ∧ lo ≤ q ∧ q ≤ hi

/-- The value is a number below a bound, and the double nearest to it is the bound. -/
def RoundsUpTo (v : Value) (bound : Double) : Prop :=
  ∃ q b, v.toRat? = some q ∧ bound.toRat? = some b ∧ q < b ∧ v.number?.bind Double.toRat? = some b

/-- The value is a number above a bound, and the double nearest to it is the bound. -/
def RoundsDownTo (v : Value) (bound : Double) : Prop :=
  ∃ q b, v.toRat? = some q ∧ bound.toRat? = some b ∧ b < q ∧ v.number?.bind Double.toRat? = some b

end Metadata

namespace Value

variable {v : Value} {x : Double}

/-- A number is a double as it is, or an integer of 64 bits with the double nearest to it. -/
theorem toRat?_of_number? (h : v.number? = some x) :
    v.toRat? = x.toRat? ∨
      ∃ n : ℤ, n.natAbs ≤ 2 ^ 64 ∧ v.toRat? = some (n : ℚ) ∧ x = .ofInt n := by
  have hbound (n : ℤ) : v.integer? = some n → n.natAbs ≤ 2 ^ 64 := natAbs_integer?_le
  cases v with
  | null | str _ | json _ | bin _ => cases h
  | f32 y =>
    obtain rfl := Option.some.inj h
    exact .inl (Single.toRat?_toDouble y).symm
  | f64 y =>
    obtain rfl := Option.some.inj h
    exact .inl rfl
  | _ m =>
    obtain rfl := Option.some.inj h
    exact .inr ⟨_, hbound _ rfl, rfl, rfl⟩

/-- The double nearest to a number is the number itself, integers of more than 53 bits apart. -/
theorem toRat?_of_natAbs_le (h : v.number? = some x)
    (hsmall : ∀ n, v.integer? = some n → n.natAbs ≤ 2 ^ 53) : x.toRat? = v.toRat? := by
  cases v with
  | null | str _ | json _ | bin _ => cases h
  | f32 y =>
    obtain rfl := Option.some.inj h
    exact Single.toRat?_toDouble y
  | f64 y =>
    obtain rfl := Option.some.inj h
    rfl
  | _ m =>
    obtain rfl := Option.some.inj h
    exact Double.toRat?_ofInt (hsmall _ rfl)

/-- The double nearest to a number lies on the number's side of every double. -/
theorem toRat?_sides (h : v.number? = some x) :
    (x.toRat? = none ∧ v.toRat? = none) ∨
      ∃ p q, x.toRat? = some p ∧ v.toRat? = some q ∧
        ∀ bound b, Double.toRat? bound = some b → (q ≤ b → p ≤ b) ∧ (b ≤ q → b ≤ p) := by
  rcases toRat?_of_number? h with hv | ⟨n, hn, hv, rfl⟩
  · rw [hv]
    cases x.toRat? with
    | none => exact .inl ⟨rfl, rfl⟩
    | some p => exact .inr ⟨p, p, rfl, rfl, fun _ _ _ => ⟨id, id⟩⟩
  · obtain ⟨p, hp⟩ := Double.isFinite_ofInt hn
    exact .inr ⟨p, n, hp, hv, fun bound b hb => Double.toRat?_ofInt_sides hn hp hb⟩

end Value

namespace Metadata

variable {text : String} {doc : Metadata} {v r : Value} {low high x : Double} {rest : List Double}

/-- What passes the check lies in the range if it is a number at all and does not round from
outside onto a bound. -/
theorem inRange_iff (hlow : low.IsFinite) (hhigh : high.IsFinite)
    (hinside : outOfRange (some (low :: high :: rest)) v = false) (hx : v.number? = some x) :
    InRange low high v ↔ x.isNaN = false ∧ ¬ RoundsUpTo v low ∧ ¬ RoundsDownTo v high := by
  obtain ⟨lo, hlo⟩ := hlow
  obtain ⟨hi, hhi⟩ := hhigh
  simp only [outOfRange, hx, Bool.or_eq_false_iff] at hinside
  rcases Value.toRat?_sides hx with ⟨hxnone, hvnone⟩ | ⟨p, q, hp, hq, hsides⟩
  -- an infinite number is beyond one of the bounds, so this one is not a number
  · have hnan : x.isNaN = true := by
      by_contra hnan
      rcases Double.less_of_toRat?_eq_none hxnone (by simpa using hnan) with hless | hless
      · simp [hless low lo hlo] at hinside
      · simp [hless high hi hhi] at hinside
    simp [InRange, hvnone, hnan]
  · have hplo : lo ≤ p := by
      simpa [Bool.eq_false_iff, Double.less_iff hp hlo] using hinside.1
    have hphi : p ≤ hi := by
      simpa [Bool.eq_false_iff, Double.less_iff hhi hp] using hinside.2
    have hup : RoundsUpTo v low ↔ q < lo := by
      simp only [RoundsUpTo, hlo, hq, hx, hp, Option.some.injEq, Option.bind_some]
      constructor
      · rintro ⟨_, _, rfl, rfl, hlt, -⟩
        exact hlt
      · intro hlt
        exact ⟨q, lo, rfl, rfl, hlt, ((hsides low lo hlo).1 hlt.le).antisymm hplo⟩
    have hdown : RoundsDownTo v high ↔ hi < q := by
      simp only [RoundsDownTo, hhi, hq, hx, hp, Option.some.injEq, Option.bind_some]
      constructor
      · rintro ⟨_, _, rfl, rfl, hlt, -⟩
        exact hlt
      · intro hlt
        exact ⟨q, hi, rfl, rfl, hlt, hphi.antisymm ((hsides high hi hhi).2 hlt.le)⟩
    simp [InRange, hlo, hhi, hq, hup, hdown, Double.isNaN_of_toRat? hp]

/-- A value that a double holds rounds onto no other number. -/
theorem not_rounds_of_exact (hx : v.number? = some x) (hexact : x.toRat? = v.toRat?)
    (bound : Double) : ¬ RoundsUpTo v bound ∧ ¬ RoundsDownTo v bound := by
  constructor <;>
  · rintro ⟨q, b, hq, -, hlt, hround⟩
    rw [hx, Option.bind_some, hexact, hq] at hround
    obtain rfl := Option.some.inj hround
    exact lt_irrefl _ hlt

/-- A document for the integers up to two to the 53. -/
def upToPow53 : String :=
  "\x7b\"dtype\": \"u64\", \"range\": [0, 9007199254740992]\x7d"

/-- Two to the 53 plus one, the least natural number that is not a double. -/
def pow53Succ : Value := .u64 9007199254740993

theorem exists_read_upToPow53 :
    ∃ doc, read upToPow53 = .ok doc ∧
      doc.range = some [.ofInt 0, .ofInt 9007199254740992] := by
  have hrange : (read upToPow53).toOption.bind range =
      some [.ofInt 0, .ofInt 9007199254740992] := by decide +kernel
  cases hread : read upToPow53 with
  | error e => simp [hread, Except.toOption] at hrange
  | ok doc => exact ⟨doc, rfl, by simpa [hread, Except.toOption] using hrange⟩

section Document

variable (hread : read text = .ok doc) (hrange : doc.range = some (low :: high :: rest))
  (h : (validate text v).map (·.getD v) = .ok r) (hx : r.number? = some x)

include hread hrange h hx

/-- Floating-point numbers and integers of at most 53 bits are taken only if they lie in the
range. -/
theorem accepted_inRange_of_natAbs_le (hnan : x.isNaN = false)
    (hsmall : ∀ n, r.integer? = some n → n.natAbs ≤ 2 ^ 53) : InRange low high r := by
  have hfinite := read_finiteRange hread _ hrange
  have hinside := outOfRange_of_check (validate_of_read hread v ▸ h)
  have hexact := not_rounds_of_exact hx (Value.toRat?_of_natAbs_le hx hsmall)
  rw [inRange_iff (hfinite low (by simp)) (hfinite high (by simp)) (hrange ▸ hinside) hx]
  exact ⟨hnan, (hexact low).1, (hexact high).2⟩

/-- A number that a document takes lies in its range if it is a number at all and does not round
from outside onto a bound. -/
theorem accepted_inRange_iff :
    InRange low high r ↔ x.isNaN = false ∧ ¬ RoundsUpTo r low ∧ ¬ RoundsDownTo r high := by
  have hfinite := read_finiteRange hread _ hrange
  have hinside := outOfRange_of_check (validate_of_read hread v ▸ h)
  exact inRange_iff (hfinite low (by simp)) (hfinite high (by simp)) (hrange ▸ hinside) hx

end Document

/-- A numeral is read, and the number that it stands for is in the range. -/
theorem numeral_inRange :
    (validate upToPow53 (.str "17")).map (·.getD (.str "17")) = .ok (.u64 17) ∧
      InRange (.ofInt 0) (.ofInt 9007199254740992) (.u64 17) := by
  obtain ⟨doc, hread, hrange⟩ := exists_read_upToPow53
  have htaken : (validate upToPow53 (.str "17")).map (·.getD (.str "17")) = .ok (.u64 17) := by
    decide +kernel
  have hexact := not_rounds_of_exact (v := .u64 17) rfl (Double.toRat?_ofInt (by decide))
  exact ⟨htaken, (accepted_inRange_iff hread hrange htaken rfl).mpr
    ⟨by decide +kernel, (hexact _).1, (hexact _).2⟩⟩

/-- An integer beyond the largest of a range is taken if the double nearest to it is the largest. -/
theorem not_accepted_always_inRange :
    ¬ ∀ (text : String) (doc : Metadata) (v r : Value) (low high x : Double) (rest : List Double),
      read text = .ok doc → doc.range = some (low :: high :: rest) →
        (validate text v).map (·.getD v) = .ok r → r.number? = some x → InRange low high r := by
  intro h
  obtain ⟨doc, hread, hrange⟩ := exists_read_upToPow53
  obtain ⟨lo, hi, q, -, hhi, hq, -, hle⟩ := h _ _ pow53Succ pow53Succ _ _ _ _ hread hrange
    (by decide +kernel) rfl
  rw [Double.toRat?_ofInt (by decide)] at hhi
  obtain rfl := Option.some.inj hhi
  obtain rfl : (9007199254740993 : ℚ) = q := Option.some.inj hq
  norm_num at hle

end Metadata
end InstrumentBus
