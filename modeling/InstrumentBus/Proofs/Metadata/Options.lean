import InstrumentBus.Proofs.Metadata.Check

/-!
# Options of metadata documents

The names of an option are values of JSON, and what a document makes of a value is of the kind that
the document names. So the value that stands for an option need not be among the option's names, and
a name may belong to an earlier option as well. A document takes a value of its own making as it is
exactly if there are no options or the first option that the value matches stands for the value:
`validate_again_iff`.
-/

namespace InstrumentBus

open Number

namespace Metadata

variable {doc : Metadata} {text : String} {v w r : Value}

/-- The first option that the value matches stands for the value. -/
def Recognizes (doc : Metadata) (v : Value) : Prop :=
  ∃ name w, lookupOption doc.optionEntries v = some name ∧
    coerce (doc.dtype.getD "") name = .ok w ∧ (w == v) = true

theorem adjust_of_nil (h : doc.optionEntries = []) (v : Value) :
    doc.adjust v = coerce (doc.dtype.getD "") v := by
  simp only [adjust, h]

theorem adjust_of_ne_nil (h : doc.optionEntries ≠ []) (v : Value) :
    doc.adjust v = match canonical (doc.dtype.getD "") doc.optionEntries v with
      | .error e => .error e
      | .ok w => coerce (doc.dtype.getD "") w := by
  rw [adjust]
  split
  · exact absurd ‹_› h
  · rfl

/-- What a document makes of a value its kind leaves as it is. -/
theorem coerce_of_adjust (h : doc.adjust v = .ok r) :
    coerce (doc.dtype.getD "") r = .ok r := by
  by_cases hnil : doc.optionEntries = []
  · rw [adjust_of_nil hnil] at h
    exact coerce_of_coerce h
  · rw [adjust_of_ne_nil hnil] at h
    split at h
    · cases h
    · exact coerce_of_coerce h

/-- A value that its kind leaves as it is stands for an option only by itself. -/
theorem canonical_of_coerce {dtype : String} (h : coerce dtype r = .ok r)
    (entries : List (List Value)) :
    canonical dtype entries r =
      match lookupOption entries r with
      | some w => .ok w
      | none => .error .parameterInvalid := by
  cases hlookup : lookupOption entries r <;> simp [canonical, h, hlookup]

/-- A value that its kind leaves as it is becomes an equal one if there are no options or it is
recognized among them. -/
theorem exists_adjust_beq_iff (h : coerce (doc.dtype.getD "") r = .ok r) (hself : (r == r) = true) :
    (∃ w, doc.adjust r = .ok w ∧ (w == r) = true) ↔
      doc.optionEntries = [] ∨ doc.Recognizes r := by
  by_cases hnil : doc.optionEntries = []
  · rw [adjust_of_nil hnil, h]
    exact ⟨fun _ => .inl hnil, fun _ => ⟨r, rfl, hself⟩⟩
  · rw [adjust_of_ne_nil hnil, canonical_of_coerce h]
    simp only [hnil, false_or, Recognizes]
    cases lookupOption doc.optionEntries r with
    | none => simp
    | some name => simp

/-- A document takes a value of its own making as it is exactly if there are no options or it
recognizes the value among them. -/
theorem validate_again_iff (hread : read text = .ok doc) (h : validate text v = .ok (some r))
    (hnan : ∀ x, r.number? = some x → x.isNaN = false) :
    validate text r = .ok none ↔ doc.optionEntries = [] ∨ doc.Recognizes r := by
  rw [validate_of_read hread] at h ⊢
  obtain ⟨hadjust, hrange, -⟩ := check_eq_some_iff.mp h
  rw [← exists_adjust_beq_iff (coerce_of_adjust hadjust) (Value.beq_self_of_number? hnan),
    check_eq_none_iff]
  constructor
  · rintro ⟨w, hw, -, hsame⟩
    exact ⟨w, hw, hsame⟩
  · rintro ⟨w, hw, hsame⟩
    exact ⟨w, hw, by rwa [outOfRange_congr hsame], hsame⟩

/-- A switch whose two states have names. -/
def switchOptions : String :=
  "\x7b\"dtype\": \"u8\", \"options\": [[0, \"off\"], [1, \"on\"]]\x7d"

/-- A gain that is a single, with a name for it. -/
def gainOptions : String :=
  "\x7b\"dtype\": \"f32\", \"options\": [[0.1, \"low\"], [0.5, \"high\"]]\x7d"

theorem exists_read_switchOptions :
    ∃ doc, read switchOptions = .ok doc ∧ doc.Recognizes (.u8 1) := by
  have hname : (read switchOptions).toOption.bind
      (fun doc => lookupOption doc.optionEntries (.u8 1)) = some (.u64 1) := by decide +kernel
  have hcoerce : (read switchOptions).toOption.map
      (fun doc => coerce (doc.dtype.getD "") (.u64 1)) = some (.ok (.u8 1)) := by decide +kernel
  cases hread : read switchOptions with
  | error e => simp [hread, Except.toOption] at hname
  | ok doc =>
    rw [hread] at hname hcoerce
    exact ⟨doc, rfl, .u64 1, .u8 1, hname, Option.some.inj hcoerce, rfl⟩

/-- A name of the switch is taken as its state, and the state is taken as it is. -/
theorem switch_state_kept :
    validate switchOptions (.str "on") = .ok (some (.u8 1)) ∧
      validate switchOptions (.u8 1) = .ok none := by
  obtain ⟨doc, hread, hrecognizes⟩ := exists_read_switchOptions
  have htaken : validate switchOptions (.str "on") = .ok (some (.u8 1)) := by decide +kernel
  refine ⟨htaken, (validate_again_iff hread htaken ?_).mpr (.inr hrecognizes)⟩
  intro x hx
  obtain rfl := Option.some.inj hx
  decide +kernel

/-- The single nearest to a tenth is not the double nearest to it, which is the option's name. -/
theorem not_validate_always_again :
    ¬ ∀ (text : String) (v r : Value), validate text v = .ok (some r) →
      (∀ x, r.number? = some x → x.isNaN = false) → validate text r = .ok none := by
  intro h
  have hagain := h gainOptions (.str "low") (.f32 ⟨0x3dcccccd⟩) (by decide +kernel) (by
    intro x hx
    obtain rfl := Option.some.inj hx
    decide +kernel)
  have hrefused : validate gainOptions (.f32 ⟨0x3dcccccd⟩) = .error .parameterInvalid := by
    decide +kernel
  rw [hrefused] at hagain
  cases hagain

end Metadata
end InstrumentBus
