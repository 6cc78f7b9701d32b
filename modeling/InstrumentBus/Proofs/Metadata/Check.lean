import InstrumentBus.Proofs.Value.Equality
import InstrumentBus.Proofs.Value.Integers
import InstrumentBus.Metadata.Validation

/-!
# What a document's check answers

A document makes a value of each value that it takes, looks at the range of that and takes the first
value as it is if the two are equal: `check_eq_none_iff` and `check_eq_some_iff`. What it makes of a
value is of the kind that it names, and of such a value it makes the value itself
(`coerce_of_coerce`). If it takes no value, it says so by one status (`status_of_validate`).
-/

namespace InstrumentBus

open Number

namespace Metadata

variable {doc : Metadata} {v w r : Value}

/-- What a kind's name makes of a value it leaves as it is. -/
theorem coerce_of_coerce {dtype : String} (h : coerce dtype v = .ok w) :
    coerce dtype w = .ok w := by
  unfold coerce at h ⊢
  split_ifs at h ⊢
  · cases hbool : v.toBool with
    | error e => simp [hbool, Except.map] at h
    | ok b =>
      rw [hbool] at h
      obtain rfl := Except.ok.inj h
      cases b <;> rfl
  · split at h
    · rw [← Value.type_of_asType h]
      exact Value.asType_type w
    · rfl

/-- Equal values lie in the same ranges. -/
theorem outOfRange_congr (h : (v == w) = true) (range : Option (List Double)) :
    outOfRange range v = outOfRange range w := by
  rcases Value.number?_congr h with heq | ⟨x, y, hv, hw, hxy⟩
  · simp only [outOfRange, heq]
  · match range with
    | none | some [] | some [_] => rfl
    | some (low :: high :: _) => simp only [outOfRange, hv, hw, Datum.less_congr hxy]

theorem validate_of_read {text : String} (hread : read text = .ok doc) (v : Value) :
    validate text v = doc.check v := by
  rw [validate, hread]

theorem check_of_adjust (h : doc.adjust v = .ok w) :
    doc.check v =
      if outOfRange doc.range w then .error .parameterInvalid
      else if w == v then .ok none else .ok (some w) := by
  rw [check, h]

theorem exists_adjust_of_check {answer : Option Value} (h : doc.check v = .ok answer) :
    ∃ w, doc.adjust v = .ok w := by
  rw [check] at h
  split at h
  · cases h
  · exact ⟨_, ‹_›⟩

theorem check_eq_none_iff :
    doc.check v = .ok none ↔
      ∃ w, doc.adjust v = .ok w ∧ outOfRange doc.range w = false ∧ (w == v) = true := by
  constructor
  · intro h
    obtain ⟨w, hw⟩ := exists_adjust_of_check h
    rw [check_of_adjust hw] at h
    cases hrange : outOfRange doc.range w <;> cases hsame : w == v <;> simp [hrange, hsame] at h
    exact ⟨w, hw, hrange, hsame⟩
  · rintro ⟨w, hw, hrange, hsame⟩
    rw [check_of_adjust hw, hrange, hsame]
    rfl

theorem check_eq_some_iff :
    doc.check v = .ok (some r) ↔
      doc.adjust v = .ok r ∧ outOfRange doc.range r = false ∧ (r == v) = false := by
  constructor
  · intro h
    obtain ⟨w, hw⟩ := exists_adjust_of_check h
    rw [check_of_adjust hw] at h
    cases hrange : outOfRange doc.range w <;> cases hsame : w == v <;> simp [hrange, hsame] at h
    subst h
    exact ⟨hw, hrange, hsame⟩
  · rintro ⟨hw, hrange, hsame⟩
    rw [check_of_adjust hw, hrange, hsame]
    rfl

/-- The value that is taken in the end lies in the range. -/
theorem outOfRange_of_check (h : (doc.check v).map (·.getD v) = .ok r) :
    outOfRange doc.range r = false := by
  cases hcheck : doc.check v with
  | error e => simp [hcheck, Except.map] at h
  | ok answer =>
    rw [hcheck] at h
    obtain rfl : answer.getD v = r := Except.ok.inj h
    cases answer with
    | none =>
      obtain ⟨w, -, hrange, hsame⟩ := check_eq_none_iff.mp hcheck
      rwa [outOfRange_congr hsame] at hrange
    | some w => exact (check_eq_some_iff.mp hcheck).2.1

end Metadata

/-! ## Refusals -/

namespace Value

variable {v : Value} {s : StatusCode}

theorem status_of_toBool (h : v.toBool = .error s) : s = .parameterInvalid := by
  unfold toBool at h
  split at h
  case h_1 | h_2 => split at h <;> cases h; rfl
  case h_5 | h_6 => cases h; rfl
  all_goals cases h

theorem status_of_roundDouble {x : Double} (h : roundDouble x = .error s) : s = .parameterInvalid := by
  unfold roundDouble at h
  split at h <;> cases h
  rfl

theorem status_of_toInteger (h : v.toInteger = .error s) : s = .parameterInvalid := by
  unfold toInteger at h
  split at h
  · cases h
  split at h
  · simp only at h
    split at h
    · cases h
    · split at h
      · exact status_of_roundDouble h
      · cases h
        rfl
  · exact status_of_roundDouble h
  · exact status_of_roundDouble h
  · cases h
    rfl

theorem status_of_toDouble (h : v.toDouble = .error s) : s = .parameterInvalid := by
  unfold toDouble at h
  split at h
  · cases h
  · cases h
  · split at h <;> cases h
    rfl
  · split at h <;> cases h
    rfl

theorem status_of_asType {type : ValueType} (h : v.asType type = .error s) : s = .parameterInvalid := by
  unfold asType at h
  split at h
  · cases h
  split at h
  case h_1 | h_2 => cases h; rfl
  case h_3 | h_4 => split at h <;> cases h; rfl
  case h_5 | h_6 =>
    cases hdouble : v.toDouble with
    | error e =>
      rw [hdouble] at h
      cases h
      exact status_of_toDouble hdouble
    | ok x =>
      rw [hdouble] at h
      cases h
  case h_7 =>
    split at h
    · cases h
      exact status_of_toInteger ‹_›
    · split at h <;> cases h
      rfl

end Value

namespace Metadata

variable {doc : Metadata} {v : Value} {s : StatusCode}

theorem status_of_coerce {dtype : String} (h : coerce dtype v = .error s) : s = .parameterInvalid := by
  unfold coerce at h
  split at h
  · cases hbool : v.toBool with
    | error e =>
      rw [hbool] at h
      cases h
      exact Value.status_of_toBool hbool
    | ok b =>
      rw [hbool] at h
      cases h
  · split at h
    · exact Value.status_of_asType h
    · cases h

theorem status_of_canonical {dtype : String} {entries : List (List Value)}
    (h : canonical dtype entries v = .error s) : s = .parameterInvalid := by
  unfold canonical at h
  split at h
  · cases h
  split at h
  · cases h
    exact status_of_coerce ‹_›
  · split at h <;> cases h
    rfl

theorem status_of_adjust (h : doc.adjust v = .error s) : s = .parameterInvalid := by
  unfold adjust at h
  simp only at h
  split at h
  · exact status_of_coerce h
  · split at h
    · cases h
      exact status_of_canonical ‹_›
    · exact status_of_coerce h

/-- Whatever is wrong with a value, it is refused by one status. -/
theorem status_of_validate {text : String} (h : validate text v = .error s) : s = .parameterInvalid := by
  unfold validate at h
  split at h
  · rename_i hread
    cases h
    unfold read at hread
    split at hread <;> cases hread
    rfl
  · unfold check at h
    split at h
    · cases h
      exact status_of_adjust ‹_›
    · split at h
      · cases h
        rfl
      · split at h <;> cases h

end Metadata

end InstrumentBus
