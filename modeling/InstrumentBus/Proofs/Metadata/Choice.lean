import InstrumentBus.Proofs.Metadata.Options

/-!
# What a document's choice among its options means

A value stands for the first name of the first option that it matches. If it matches none, then what
it becomes in the document's kind stands for such a name. The name, brought to the document's kind,
is what the value is taken as, so the value that is taken in the end is of the kind the document
names and belongs to an option, if there are options: `validate_sound`. It is compared with the
value that came by the equality of values, for which both zeros are equal.
-/

namespace InstrumentBus

namespace Metadata

variable {doc : Metadata} {text : String} {u v w r name : Value}

/-! ## The first option that a value matches -/

/-- The names of an option: a list holds several, any other document is a name by itself. -/
def names : Json → List Value
  | .array items => items.map Value.ofJson
  | single => [Value.ofJson single]

/-- One of an option's names matches a value. -/
def offers (option : Json) (v : Value) : Bool := (names option).any (isOption v)

/-- No option offers the value. -/
def Unmatched (doc : Metadata) (v : Value) : Prop :=
  ∀ option ∈ doc.options.getD [], offers option v = false

/-- The first option that offers the value has this name first. -/
def StandsFor (doc : Metadata) (v name : Value) : Prop :=
  ∃ before option later, doc.options.getD [] = before ++ option :: later ∧
    (∀ earlier ∈ before, offers earlier v = false) ∧ offers option v = true ∧
    (names option).head? = some name

/-- A value stands for a name as it is or, if no option offers it, in the document's kind. -/
def Chooses (doc : Metadata) (v name : Value) : Prop :=
  doc.StandsFor v name ∨
    doc.Unmatched v ∧ ∃ w, coerce (doc.dtype.getD "") v = .ok w ∧ doc.StandsFor w name

/-- Some option has a name. -/
def ListsOption (doc : Metadata) : Prop := ∃ option ∈ doc.options.getD [], names option ≠ []

theorem optionEntries_eq (doc : Metadata) :
    doc.optionEntries = ((doc.options.getD []).map names).filter (· ≠ []) := rfl

theorem optionEntries_eq_nil_iff : doc.optionEntries = [] ↔ ¬ doc.ListsOption := by
  simp [optionEntries_eq, ListsOption, List.filter_eq_nil_iff]

/-- An option without names offers no value. -/
theorem names_ne_nil_of_offers {option : Json} (h : offers option v = true) : names option ≠ [] := by
  intro hnil
  rw [offers, hnil] at h
  cases h

theorem lookupOption_eq (doc : Metadata) (v : Value) :
    lookupOption doc.optionEntries v =
      ((doc.options.getD []).find? (offers · v)).bind fun option => (names option).head? := by
  have hoffers : (fun option => decide (names option ≠ []) && (names option).any (isOption v)) =
      (offers · v) := by
    funext option
    cases hoffer : offers option v with
    | false => rw [offers] at hoffer; rw [hoffer, Bool.and_false]
    | true =>
      rw [offers] at hoffer
      rw [hoffer, decide_eq_true (names_ne_nil_of_offers hoffer), Bool.and_true]
  rw [lookupOption, optionEntries_eq, List.find?_filter, List.find?_map]
  simp only [Function.comp_def, Bool.decide_and, Bool.decide_eq_true, hoffers]
  cases (doc.options.getD []).find? (offers · v) <;> rfl

/-- Looking for a value among the options finds the name that the value stands for. -/
theorem lookupOption_eq_some_iff :
    lookupOption doc.optionEntries v = some name ↔ doc.StandsFor v name := by
  simp only [lookupOption_eq, Option.bind_eq_some_iff, List.find?_eq_some_iff_append, StandsFor,
    Bool.not_eq_true']
  constructor
  · rintro ⟨option, ⟨hoffers, before, later, hsplit, hbefore⟩, hname⟩
    exact ⟨before, option, later, hsplit, hbefore, hoffers, hname⟩
  · rintro ⟨before, option, later, hsplit, hbefore, hoffers, hname⟩
    exact ⟨option, ⟨hoffers, before, later, hsplit, hbefore⟩, hname⟩

/-- Looking for a value among the options fails exactly if none offers it: an option that does has
a first name. -/
theorem lookupOption_eq_none_iff : lookupOption doc.optionEntries v = none ↔ doc.Unmatched v := by
  rw [lookupOption_eq, Option.bind_eq_none_iff]
  constructor
  · intro h
    cases hfind : (doc.options.getD []).find? (offers · v) with
    | none =>
      intro option hoption
      exact Bool.eq_false_iff.mpr (List.find?_eq_none.mp hfind option hoption)
    | some first =>
      have hoffers : offers first v = true := List.find?_some (p := (offers · v)) hfind
      exact absurd (List.head?_eq_none_iff.mp (h first hfind)) (names_ne_nil_of_offers hoffers)
  · intro h option hfind
    have hoffers : offers option v = true := List.find?_some (p := (offers · v)) hfind
    rw [h option (List.mem_of_find?_eq_some hfind)] at hoffers
    cases hoffers

theorem Unmatched.not_standsFor (h : doc.Unmatched v) : ¬ doc.StandsFor v name := by
  rw [← lookupOption_eq_some_iff, lookupOption_eq_none_iff.mpr h]
  intro hnone
  cases hnone

/-- The canonical name of a value is the one that is chosen for it. -/
theorem canonical_eq_ok_iff :
    canonical (doc.dtype.getD "") doc.optionEntries v = .ok name ↔ doc.Chooses v name := by
  unfold canonical Chooses
  simp only [← lookupOption_eq_some_iff, ← lookupOption_eq_none_iff]
  cases hlookup : lookupOption doc.optionEntries v with
  | some n => simp
  | none =>
    cases hcoerce : coerce (doc.dtype.getD "") v with
    | error e => simp
    | ok w => cases hagain : lookupOption doc.optionEntries w <;> simp [hagain]

/-! ## What is made of a value -/

/-- Nothing can be made of a value: no option offers it and it is not of the document's kind, or no
option offers what it is in that kind either, or the name that is chosen for it is not of the
kind. -/
inductive Unfit (doc : Metadata) (v : Value) : Prop
  | kindless {e : StatusCode} : doc.Unmatched v → coerce (doc.dtype.getD "") v = .error e →
      Unfit doc v
  | unlisted {w : Value} : doc.ListsOption → doc.Unmatched v →
      coerce (doc.dtype.getD "") v = .ok w → doc.Unmatched w → Unfit doc v
  | misnamed {name : Value} {e : StatusCode} : doc.Chooses v name →
      coerce (doc.dtype.getD "") name = .error e → Unfit doc v

theorem listsOption_of_standsFor (h : doc.StandsFor v name) : doc.ListsOption := by
  obtain ⟨before, option, later, hsplit, -, hoffers, -⟩ := h
  refine ⟨option, ?_, names_ne_nil_of_offers hoffers⟩
  rw [hsplit]
  exact List.mem_append_right _ List.mem_cons_self

theorem listsOption_of_chooses (h : doc.Chooses v name) : doc.ListsOption := by
  rcases h with h | ⟨-, _, -, h⟩
  · exact listsOption_of_standsFor h
  · exact listsOption_of_standsFor h

/-- If there are options, a value becomes the name that is chosen for it, in the document's kind. -/
theorem adjust_eq_ok_iff (hlists : doc.ListsOption) :
    doc.adjust v = .ok w ↔
      ∃ name, doc.Chooses v name ∧ coerce (doc.dtype.getD "") name = .ok w := by
  rw [adjust_of_ne_nil fun hnil => optionEntries_eq_nil_iff.mp hnil hlists]
  cases hcanonical : canonical (doc.dtype.getD "") doc.optionEntries v with
  | error e => simp [← canonical_eq_ok_iff, hcanonical]
  | ok n => simp [← canonical_eq_ok_iff, hcanonical]

theorem Chooses.unique {n : Value} (h : doc.Chooses v name) (h' : doc.Chooses v n) : name = n := by
  rw [← canonical_eq_ok_iff] at h h'
  exact Except.ok.inj (h.symm.trans h')

/-- No name is chosen for a value that neither as it is nor in the document's kind is offered. -/
theorem not_chooses_of_unmatched (h : doc.Unmatched v)
    (hkind : ∀ u, coerce (doc.dtype.getD "") v = .ok u → doc.Unmatched u) : ¬ doc.Chooses v name := by
  rintro (hstands | ⟨-, u, hu, hstands⟩)
  · exact h.not_standsFor hstands
  · exact (hkind u hu).not_standsFor hstands

theorem adjust_ne_ok_of_unfit (h : doc.Unfit v) (w : Value) : doc.adjust v ≠ .ok w := by
  intro hw
  cases h with
  | kindless hunmatched hcoerce =>
    by_cases hlists : doc.ListsOption
    · obtain ⟨name, hchooses, -⟩ := (adjust_eq_ok_iff hlists).mp hw
      refine not_chooses_of_unmatched hunmatched (fun u hu => ?_) hchooses
      rw [hcoerce] at hu
      cases hu
    · rw [adjust_of_nil (optionEntries_eq_nil_iff.mpr hlists), hcoerce] at hw
      cases hw
  | unlisted hlists hunmatched hcoerce hagain =>
    obtain ⟨name, hchooses, -⟩ := (adjust_eq_ok_iff hlists).mp hw
    refine not_chooses_of_unmatched hunmatched (fun u hu => ?_) hchooses
    rw [hcoerce] at hu
    exact Except.ok.inj hu ▸ hagain
  | misnamed hchooses hcoerce =>
    obtain ⟨name, hname, hok⟩ := (adjust_eq_ok_iff (listsOption_of_chooses hchooses)).mp hw
    rw [hname.unique hchooses, hcoerce] at hok
    cases hok

/-- A value of which nothing can be made is refused. -/
theorem check_of_unfit (h : doc.Unfit v) : doc.check v = .error .parameterInvalid := by
  cases hadjust : doc.adjust v with
  | error e =>
    rw [check, hadjust, status_of_adjust hadjust]
  | ok w => exact absurd hadjust (adjust_ne_ok_of_unfit h w)

/-! ## The value that is taken in the end -/

/-- Except for truth values, a kind's name is the type of the values that are brought to it. -/
theorem type_of_coerce {dtype : String} {type : ValueType} (hbool : dtype ≠ "bool")
    (htype : ValueType.ofName? dtype = some type) (h : coerce dtype v = .ok w) : w.type = type := by
  rw [coerce, if_neg hbool, htype] at h
  exact Value.type_of_asType h

/-- Truth values are the numbers zero and one. -/
theorem eq_of_coerce_bool (h : coerce "bool" v = .ok w) : w = .u8 0 ∨ w = .u8 1 := by
  rw [coerce, if_pos rfl] at h
  cases hbool : v.toBool with
  | error e => simp [hbool, Except.map] at h
  | ok b =>
    rw [hbool] at h
    obtain rfl := Except.ok.inj h
    cases b
    · exact .inl rfl
    · exact .inr rfl

/-- Equal values are of one type. -/
theorem type_of_beq (h : (v == w) = true) : v.type = w.type := by
  rcases Value.beq_cases h with rfl | ⟨x, y, rfl, rfl, -⟩ | ⟨x, y, rfl, rfl, -⟩ <;> rfl

/-- A value that is taken in the end is what was made of the one that came, or that one itself and
equal to what was made of it. -/
theorem exists_adjust_of_check_map (h : (doc.check v).map (·.getD v) = .ok r) :
    ∃ w, doc.adjust v = .ok w ∧ (w = r ∨ (w == r) = true) := by
  cases hcheck : doc.check v with
  | error e => simp [hcheck, Except.map] at h
  | ok answer =>
    rw [hcheck] at h
    obtain rfl : answer.getD v = r := Except.ok.inj h
    cases answer with
    | none =>
      obtain ⟨w, hw, -, hsame⟩ := check_eq_none_iff.mp hcheck
      exact ⟨w, hw, .inr hsame⟩
    | some w => exact ⟨w, (check_eq_some_iff.mp hcheck).1, .inl rfl⟩

/-- What a document promises of the value that it takes in the end. -/
structure Sound (doc : Metadata) (v r : Value) : Prop where
  typed : ∀ dtype type, doc.dtype = some dtype → dtype ≠ "bool" →
    ValueType.ofName? dtype = some type → r.type = type
  truth : doc.dtype = some "bool" → r = .u8 0 ∨ r = .u8 1
  /-- The value is equal to the chosen name in the document's kind. -/
  chosen : doc.ListsOption → ∃ name w, doc.Chooses v name ∧
    coerce (doc.dtype.getD "") name = .ok w ∧ (w = r ∨ (w == r) = true)

theorem sound_of_adjust (hw : doc.adjust v = .ok w) (hr : w = r ∨ (w == r) = true) :
    doc.Sound v r where
  typed dtype type hdtype hbool htype := by
    have hcoerce := coerce_of_adjust hw
    rw [hdtype] at hcoerce
    rw [← type_of_coerce hbool htype hcoerce]
    rcases hr with rfl | hr
    · rfl
    · exact (type_of_beq hr).symm
  truth hdtype := by
    have hcoerce := coerce_of_adjust hw
    rw [hdtype] at hcoerce
    have hcases := eq_of_coerce_bool hcoerce
    rcases hr with rfl | hr
    · exact hcases
    · rcases Value.beq_cases hr with rfl | ⟨x, y, rfl, -, -⟩ | ⟨x, y, rfl, -, -⟩
      · exact hcases
      -- the two numbers are no floating-point values
      · rcases hcases with h | h <;> cases h
      · rcases hcases with h | h <;> cases h
  chosen hlists := by
    obtain ⟨name, hchooses, hcoerce⟩ := (adjust_eq_ok_iff hlists).mp hw
    exact ⟨name, w, hchooses, hcoerce, hr⟩

/-- The value that a document takes in the end is of the document's kind and belongs to the option
that is chosen for the value that came; a value of which nothing can be made is refused. -/
theorem validate_sound (hread : read text = .ok doc) (v : Value) :
    (∀ r, (validate text v).map (·.getD v) = .ok r → doc.Sound v r) ∧
      (doc.Unfit v → validate text v = .error .parameterInvalid) := by
  rw [validate_of_read hread]
  constructor
  · intro r hr
    obtain ⟨w, hw, hsame⟩ := exists_adjust_of_check_map hr
    exact sound_of_adjust hw hsame
  · exact check_of_unfit

/-- A setting with four levels. One name of the first is the first name of the second. -/
def levelOptions : String :=
  "\x7b\"dtype\": \"u8\", \"options\": [[1, \"low\", 2], [2, \"mid\"], [], 3, [\"x\", 4]]\x7d"

theorem exists_read_levelOptions :
    ∃ doc, read levelOptions = .ok doc ∧ doc.Chooses (.str "0x2") (.u64 1) ∧ doc.Unfit (.u8 4) := by
  have htwo : (read levelOptions).toOption.map (fun doc =>
      canonical (doc.dtype.getD "") doc.optionEntries (.str "0x2")) = some (.ok (.u64 1)) := by
    decide +kernel
  have hfour : (read levelOptions).toOption.map (fun doc =>
      canonical (doc.dtype.getD "") doc.optionEntries (.u8 4)) = some (.ok (.str "x")) := by
    decide +kernel
  have hname : (read levelOptions).toOption.map (fun doc => coerce (doc.dtype.getD "") (.str "x")) =
      some (.error .parameterInvalid) := by decide +kernel
  cases hread : read levelOptions with
  | error e => simp [hread, Except.toOption] at htwo
  | ok doc =>
    rw [hread] at htwo hfour hname
    exact ⟨doc, rfl, canonical_eq_ok_iff.mp (Option.some.inj htwo),
      .misnamed (canonical_eq_ok_iff.mp (Option.some.inj hfour)) (Option.some.inj hname)⟩

/-- Two is taken as one, whose option offers it before the option that two names, and four is
refused, because the name that stands for it is not of the setting's kind. -/
theorem level_sound :
    validate levelOptions (.str "0x2") = .ok (some (.u8 1)) ∧
      validate levelOptions (.u8 4) = .error .parameterInvalid ∧
      ∃ doc, read levelOptions = .ok doc ∧ doc.Chooses (.str "0x2") (.u64 1) ∧
        doc.Sound (.str "0x2") (.u8 1) := by
  have htaken : validate levelOptions (.str "0x2") = .ok (some (.u8 1)) := by decide +kernel
  obtain ⟨doc, hread, hchooses, hunfit⟩ := exists_read_levelOptions
  refine ⟨htaken, (validate_sound hread (.u8 4)).2 hunfit, doc, hread, hchooses, ?_⟩
  apply (validate_sound hread (.str "0x2")).1
  rw [htaken]
  rfl

end Metadata
end InstrumentBus
