import InstrumentBus.Proofs.Metadata.Options
import InstrumentBus.Proofs.Value.Equivalence

/-!
# Documents and the widths of integers

A document treats integer values by the integers that they denote, whatever kind holds them: they
match the same options, become the same values of a kind and lie in the same ranges. So values of
one integer are refused alike or taken as the same value. Only if the document names no kind may a
value be left as it came: `validate_alike`.
-/

namespace InstrumentBus

open Number

namespace Value

variable {v w : Value} {n : ℤ} {type : ValueType}

/-! ## Conversions of an integer -/

theorem toBool_of_integer? (h : v.integer? = some n) : v.toBool = .ok (some n != some 0) := by
  rw [← h]
  cases v with
  | null | str _ | json _ | bin _ | f32 _ | f64 _ => cases h
  | _ => rfl

theorem toDouble_of_integer? (h : v.integer? = some n) : v.toDouble = .ok (.ofInt n) := by
  cases v with
  | null | str _ | json _ | bin _ | f32 _ | f64 _ => cases h
  | _ =>
    obtain rfl := Option.some.inj h
    rfl

theorem number?_of_integer? (h : v.integer? = some n) : v.number? = some (.ofInt n) := by
  cases v with
  | null | str _ | json _ | bin _ | f32 _ | f64 _ => cases h
  | _ =>
    obtain rfl := Option.some.inj h
    rfl

theorem meaning_congr (hv : v.integer? = some n) (hw : w.integer? = some n) :
    v.meaning = w.meaning :=
  (meaning_eq_integer_iff.mpr hv).trans (meaning_eq_integer_iff.mpr hw).symm

/-- No integer is read as text, a document or bytes. -/
theorem asType_of_isPointer (h : v.integer? = some n)
    (htype : type.isPointer = true ∨ type = .null) : v.asType type = .error .parameterInvalid := by
  cases v with
  | null | str _ | json _ | bin _ | f32 _ | f64 _ => cases h
  | _ =>
    cases type with
    | null | str | json | bin => rfl
    | _ => simp [ValueType.isPointer] at htype

theorem asType_of_isFloat (h : v.integer? = some n) :
    v.asType .f32 = .ok (f32 (Double.ofInt n).toSingle) ∧ v.asType .f64 = .ok (f64 (.ofInt n)) := by
  have hdouble := toDouble_of_integer? h
  cases v with
  | null | str _ | json _ | bin _ | f32 _ | f64 _ => cases h
  | _ => simp [asType, Value.type, hdouble, Except.map]

/-- What a value becomes in another kind depends on its integer only. -/
theorem asType_congr (hv : v.integer? = some n) (hw : w.integer? = some n) (type : ValueType) :
    v.asType type = w.asType type := by
  cases type with
  | null | str | json | bin =>
    rw [asType_of_isPointer hv (by decide), asType_of_isPointer hw (by decide)]
  | f32 => rw [(asType_of_isFloat hv).1, (asType_of_isFloat hw).1]
  | f64 => rw [(asType_of_isFloat hv).2, (asType_of_isFloat hw).2]
  | _ =>
    rw [asType_eq_ofInteger? (by decide) (toInteger_of_integer? hv),
      asType_eq_ofInteger? (by decide) (toInteger_of_integer? hw)]

end Value

namespace Metadata

variable {doc : Metadata} {v w u : Value} {n : ℤ} {dtype text : String}

/-! ## What a document makes of an integer -/

theorem isOption_of_integer? (h : v.integer? = some n) (option : Value) :
    isOption v option = v.equiv option := by
  unfold isOption
  split
  · cases h
  · rfl

/-- Values of one integer match the same options. -/
theorem lookupOption_congr (hv : v.integer? = some n) (hw : w.integer? = some n)
    (entries : List (List Value)) : lookupOption entries v = lookupOption entries w := by
  have hsame : isOption v = isOption w := by
    funext option
    rw [isOption_of_integer? hv, isOption_of_integer? hw,
      Value.equiv_congr (Value.meaning_congr hv hw)]
  rw [lookupOption, lookupOption, hsame]

/-- A kind makes the same of values of one integer. -/
theorem coerce_congr (hv : v.integer? = some n) (hw : w.integer? = some n)
    (hdtype : ValueType.ofName? dtype ≠ none) : coerce dtype v = coerce dtype w := by
  obtain ⟨type, htype⟩ := Option.ne_none_iff_exists'.mp hdtype
  unfold coerce
  split
  · rw [Value.toBool_of_integer? hv, Value.toBool_of_integer? hw]
  · simp only [htype]
    exact Value.asType_congr hv hw type

/-- What is no kind leaves values as they are. -/
theorem coerce_of_ofName?_eq_none (h : ValueType.ofName? dtype = none) (v : Value) :
    coerce dtype v = .ok v := by
  have hbool : dtype ≠ "bool" := by
    rintro rfl
    cases h
  rw [coerce, if_neg hbool]
  simp only [h]

/-- Values of one integer stand for the same option. -/
theorem canonical_congr (hv : v.integer? = some n) (hw : w.integer? = some n) (dtype : String)
    (entries : List (List Value)) : canonical dtype entries v = canonical dtype entries w := by
  have hlookup := lookupOption_congr hv hw entries
  unfold canonical
  rw [hlookup]
  cases hname : lookupOption entries w with
  | some name => rfl
  | none =>
    rw [hname] at hlookup
    by_cases hdtype : ValueType.ofName? dtype = none
    · simp only [coerce_of_ofName?_eq_none hdtype, hlookup, hname]
    · rw [coerce_congr hv hw hdtype]

/-- A document makes the same of values of one integer, or leaves them as they are if it neither
lists options nor names a kind. -/
theorem adjust_congr (doc : Metadata) (hv : v.integer? = some n) (hw : w.integer? = some n) :
    doc.adjust v = doc.adjust w ∨
      ValueType.ofName? (doc.dtype.getD "") = none ∧
        doc.adjust v = .ok v ∧ doc.adjust w = .ok w := by
  by_cases hnil : doc.optionEntries = []
  · rw [adjust_of_nil hnil, adjust_of_nil hnil]
    by_cases hdtype : ValueType.ofName? (doc.dtype.getD "") = none
    · exact .inr ⟨hdtype, coerce_of_ofName?_eq_none hdtype v, coerce_of_ofName?_eq_none hdtype w⟩
    · exact .inl (coerce_congr hv hw hdtype)
  · rw [adjust_of_ne_nil hnil, adjust_of_ne_nil hnil, canonical_congr hv hw]
    exact .inl rfl

/-! ## Two values of one integer -/

theorem check_of_outOfRange (h : doc.adjust v = .ok u) (hrange : outOfRange doc.range u = true) :
    doc.check v = .error .parameterInvalid := by
  rw [check_of_adjust h, hrange]
  rfl

/-- What is made of an integer value and lies in the range is what is taken in the end. -/
theorem check_map_of_adjust (hv : v.integer? = some n) (h : doc.adjust v = .ok u)
    (hrange : outOfRange doc.range u = false) : (doc.check v).map (·.getD v) = .ok u := by
  rw [check_of_adjust h, hrange]
  cases hsame : u == v with
  | false => rfl
  | true =>
    -- of equal values one is an integer, so they are the same
    rcases Value.beq_cases hsame with rfl | ⟨x, y, -, rfl, -⟩ | ⟨x, y, -, rfl, -⟩
    · rfl
    · cases hv
    · cases hv

/-- Values of one integer are refused by one status, or taken as the same value. If the document
names no kind they may instead be taken as they are, and then they mean the same. -/
theorem check_alike (hv : v.integer? = some n) (hw : w.integer? = some n) :
    (∃ e, doc.check v = .error e ∧ doc.check w = .error e) ∨
      ∃ r s, (doc.check v).map (·.getD v) = .ok r ∧ (doc.check w).map (·.getD w) = .ok s ∧
        (r = s ∨ ValueType.ofName? (doc.dtype.getD "") = none ∧ r = v ∧ s = w) := by
  rcases adjust_congr doc hv hw with h | ⟨hdtype, hkeepv, hkeepw⟩
  · cases hadjust : doc.adjust w with
    | error e =>
      refine .inl ⟨e, ?_, ?_⟩
      · rw [check, h, hadjust]
      · rw [check, hadjust]
    | ok u =>
      rw [hadjust] at h
      cases hrange : outOfRange doc.range u with
      | true => exact .inl ⟨_, check_of_outOfRange h hrange, check_of_outOfRange hadjust hrange⟩
      | false =>
        exact .inr ⟨u, u, check_map_of_adjust hv h hrange, check_map_of_adjust hw hadjust hrange,
          .inl rfl⟩
  · have hranges : outOfRange doc.range v = outOfRange doc.range w := by
      simp only [outOfRange, Value.number?_of_integer? hv, Value.number?_of_integer? hw]
    cases hrange : outOfRange doc.range w with
    | true =>
      exact .inl ⟨_, check_of_outOfRange hkeepv (hranges.trans hrange),
        check_of_outOfRange hkeepw hrange⟩
    | false =>
      exact .inr ⟨v, w, check_map_of_adjust hv hkeepv (hranges.trans hrange),
        check_map_of_adjust hw hkeepw hrange, .inr ⟨hdtype, rfl, rfl⟩⟩

/-- A document does not look at the kinds that hold an integer: values of one integer are refused by
one status, or taken as values that are equivalent, and are the same if the document names a kind of
values. Only what is not a number, which is equivalent to nothing, may be taken for both without
being equivalent. -/
theorem validate_alike (hv : v.integer? = some n) (hw : w.integer? = some n) (text : String) :
    (∃ e, validate text v = .error e ∧ validate text w = .error e) ∨
      ∃ r s, (validate text v).map (·.getD v) = .ok r ∧ (validate text w).map (·.getD w) = .ok s ∧
        (r.equiv s = true ∨ r = s ∧ r.meaning = .nan) ∧
        ∀ type, valueType text = .ok (some type) → r = s := by
  cases hread : read text with
  | error e => exact .inl ⟨e, by rw [validate, hread], by rw [validate, hread]⟩
  | ok doc =>
    rw [validate_of_read hread, validate_of_read hread]
    rcases check_alike hv hw with herror | ⟨r, s, hr, hs, hsame⟩
    · exact .inl herror
    refine .inr ⟨r, s, hr, hs, ?_, fun type htype => ?_⟩
    · rcases hsame with rfl | ⟨-, rfl, rfl⟩
      · by_cases hnan : r.meaning = .nan
        · exact .inr ⟨rfl, hnan⟩
        · exact .inl (Value.equiv_iff_meaning.mpr ⟨rfl, hnan⟩)
      · exact .inl ((Value.equiv_of_integer? hv hw).mpr rfl)
    · rcases hsame with rfl | ⟨hdtype, -, -⟩
      · rfl
      · rw [valueType, hread] at htype
        obtain ⟨dtype, hnamed, hkind⟩ := Option.bind_eq_some_iff.mp (Except.ok.inj htype)
        rw [hnamed, Option.getD_some, hkind] at hdtype
        cases hdtype

/-- A state of the switch is taken as the same value, whether it comes with 8 bits or with 64. -/
theorem switch_state_alike :
    (Value.u8 1).integer? = some 1 ∧ (Value.i64 1).integer? = some 1 ∧
      valueType switchOptions = .ok (some .u8) ∧
      ∃ r, (validate switchOptions (.u8 1)).map (·.getD (.u8 1)) = .ok r ∧
        (validate switchOptions (.i64 1)).map (·.getD (.i64 1)) = .ok r := by
  have htype : valueType switchOptions = .ok (some .u8) := by decide +kernel
  refine ⟨rfl, rfl, htype, ?_⟩
  rcases validate_alike (v := .u8 1) (w := .i64 1) (n := 1) rfl rfl switchOptions with
    ⟨e, herror, -⟩ | ⟨r, s, hr, hs, -, hsame⟩
  · have htaken : validate switchOptions (.u8 1) = .ok none := by decide +kernel
    rw [htaken] at herror
    cases herror
  · obtain rfl := hsame .u8 htype
    exact ⟨r, hr, hs⟩

/-- A gain that has a name for five which does not read as a number. -/
def unnumberedOptions : String :=
  "\x7b\"dtype\": \"f64\", \"options\": [[\"nan\", 5]]\x7d"

/-- Five is taken as what is not a number, and that is not equivalent to itself. -/
theorem not_validate_always_equiv :
    ¬ ∀ (text : String) (v w : Value) (n : ℤ), v.integer? = some n → w.integer? = some n →
      (∃ e, validate text v = .error e ∧ validate text w = .error e) ∨
        ∃ r s, (validate text v).map (·.getD v) = .ok r ∧ (validate text w).map (·.getD w) = .ok s ∧
          r.equiv s = true := by
  intro h
  have htaken (v : Value) (hv : v = .u8 5 ∨ v = .u16 5) :
      validate unnumberedOptions v = .ok (some (.f64 .nan)) := by
    rcases hv with rfl | rfl <;> decide +kernel
  have hfirst := htaken (.u8 5) (.inl rfl)
  have hsecond := htaken (.u16 5) (.inr rfl)
  rcases h unnumberedOptions (.u8 5) (.u16 5) 5 rfl rfl with ⟨e, herror, -⟩ | ⟨r, s, hr, hs, hequiv⟩
  · rw [hfirst] at herror
    cases herror
  · rw [hfirst] at hr
    rw [hsecond] at hs
    obtain rfl : Value.f64 .nan = r := Except.ok.inj hr
    obtain rfl : Value.f64 .nan = s := Except.ok.inj hs
    revert hequiv
    decide +kernel

end Metadata
end InstrumentBus
