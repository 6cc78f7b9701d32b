import Mathlib
import InstrumentBus.Metadata.Document

/-!
# The texts that are taken as metadata documents

A document is read from an object or from an array. An object is taken if its names are texts, none
of the four fields comes twice and each holds what a field of its name takes (`IsRecord`); what
stands under other names does not matter. An array is taken if it holds at most the four fields in
their order (`IsFieldArray`). No other text is taken: `syntaxCheck_eq_ok_iff`. So a text that
passes for a document is an object unless it is such an array: `isObject_of_syntaxCheck_iff`.
-/

namespace InstrumentBus

open Json

namespace Metadata

/-! ## What a field takes -/

/-- The texts that a field takes. Any field may be null. -/
def Field.Takes : Field → Syntax → Prop
  | dtype, text => text = .null ∨ ∃ parts, text = .string parts ∧ (string? parts).isSome = true
  | default, text => (Json.ofSyntax? fieldDepth text).isSome = true
  | options, text => text = .null ∨ ∃ items, text = .array items ∧
      ∀ item ∈ items, (Json.ofSyntax? (fieldDepth - 1) item).isSome = true
  | range, text => text = .null ∨ ∃ items, text = .array items ∧
      ∀ item ∈ items, ∃ n, item = .number n ∧ (Numeric.ofText? n).isSome = true

theorem isSome_field?_iff {α : Type} {read : Syntax → Option α} {text : Syntax} :
    (field? read text).isSome = true ↔ text = .null ∨ (read text).isSome = true := by
  unfold field?
  split
  · simp
  · rename_i hnull
    rw [Option.isSome_map, or_iff_right hnull]

theorem isSome_name?_iff {text : Syntax} :
    (name? text).isSome = true ↔ ∃ parts, text = .string parts ∧ (string? parts).isSome = true := by
  cases text <;> simp [name?]

theorem isSome_ofItems?_values_iff {depth : ℕ} {items : List Syntax} :
    (Json.ofItems? depth items).isSome = true ↔
      ∀ item ∈ items, (Json.ofSyntax? depth item).isSome = true := by
  induction items with
  | nil => simp [Json.ofItems?]
  | cons item items ih =>
    rw [List.forall_mem_cons, ← ih]
    cases hitem : Json.ofSyntax? depth item <;> cases hitems : Json.ofItems? depth items <;>
      simp [Json.ofItems?, hitem, hitems]

theorem isSome_options?_iff {text : Syntax} :
    (options? text).isSome = true ↔ ∃ items, text = .array items ∧
      ∀ item ∈ items, (Json.ofSyntax? (fieldDepth - 1) item).isSome = true := by
  cases text <;> simp [options?, isSome_ofItems?_values_iff]

theorem isSome_bound?_iff {text : Syntax} :
    (bound? text).isSome = true ↔ ∃ n, text = .number n ∧ (Numeric.ofText? n).isSome = true := by
  cases text <;> simp [bound?]

theorem isSome_range?_iff {text : Syntax} :
    (range? text).isSome = true ↔ ∃ items, text = .array items ∧
      ∀ item ∈ items, ∃ n, item = .number n ∧ (Numeric.ofText? n).isSome = true := by
  cases text with
  | array items =>
    simp only [range?, Syntax.array.injEq, exists_eq_left', ← isSome_bound?_iff]
    induction items with
    | nil => simp
    | cons item items ih =>
      rw [List.forall_mem_cons, ← ih]
      cases hitem : bound? item <;> cases hitems : items.mapM bound? <;> simp [hitem, hitems]
  | _ => simp [range?]

/-- A field is set from the texts that it takes, whatever the document says so far. -/
theorem Field.isSome_set_iff (doc : Metadata) {field : Field} {text : Syntax} :
    (field.set doc text).isSome = true ↔ field.Takes text := by
  cases field with
  | dtype => rw [set, Option.isSome_map, isSome_field?_iff, isSome_name?_iff]; rfl
  | default =>
    rw [set, Option.isSome_map, isSome_field?_iff]
    refine or_iff_right_of_imp ?_
    rintro rfl
    rfl
  | options => rw [set, Option.isSome_map, isSome_field?_iff, isSome_options?_iff]; rfl
  | range => rw [set, Option.isSome_map, isSome_field?_iff, isSome_range?_iff]; rfl

/-! ## Arrays -/

/-- The items are texts of the fields in their order, of all of them or of the first few. -/
def IsFieldList (items : List Syntax) : Prop :=
  items.length ≤ Field.all.length ∧ ∀ p ∈ Field.all.zip items, p.1.Takes p.2

theorem isSome_ofItems?_iff {doc : Metadata} {fields : List Field} {items : List Syntax} :
    (ofItems? doc fields items).isSome = true ↔
      items.length ≤ fields.length ∧ ∀ p ∈ fields.zip items, p.1.Takes p.2 := by
  induction items generalizing doc fields with
  | nil => cases fields <;> simp [ofItems?]
  | cons text items ih =>
    cases fields with
    | nil => simp [ofItems?]
    | cons field fields =>
      rw [List.zip_cons_cons, List.forall_mem_cons, ← Field.isSome_set_iff doc]
      cases hset : field.set doc text with
      | none => simp [ofItems?, hset]
      | some doc' => simp [ofItems?, hset, ih]

/-! ## Objects -/

/-- The members whose names are those of fields, as these fields. -/
def fieldsOf (members : List (List StringPart × Syntax)) : List (Field × Syntax) :=
  members.filterMap fun (key, text) => ((string? key).bind Field.ofName?).map (·, text)

/-- The names are texts, no field comes twice, and each field takes its text. -/
@[mk_iff]
structure IsRecord (members : List (List StringPart × Syntax)) : Prop where
  named : ∀ member ∈ members, (string? member.1).isSome = true
  distinct : ((fieldsOf members).map Prod.fst).Nodup
  taken : ∀ p ∈ fieldsOf members, p.1.Takes p.2

section Members

variable {key : List StringPart} {name : String} {field : Field} (text : Syntax)
  (members : List (List StringPart × Syntax))

/-- A member that is no field only has to have a text as its name. -/
theorem isRecord_cons_of_unknown (hkey : string? key = some name)
    (hname : Field.ofName? name = none) :
    fieldsOf ((key, text) :: members) = fieldsOf members ∧
      (IsRecord ((key, text) :: members) ↔ IsRecord members) := by
  have hfields : fieldsOf ((key, text) :: members) = fieldsOf members := by
    simp [fieldsOf, hkey, hname]
  refine ⟨hfields, ?_⟩
  rw [isRecord_iff, isRecord_iff, hfields, List.forall_mem_cons, hkey]
  simp

/-- A member that is a field has to hold what the field takes, and no later one is the field. -/
theorem isRecord_cons_of_known (hkey : string? key = some name)
    (hname : Field.ofName? name = some field) :
    fieldsOf ((key, text) :: members) = (field, text) :: fieldsOf members ∧
      (IsRecord ((key, text) :: members) ↔
        field.Takes text ∧ IsRecord members ∧ ∀ p ∈ fieldsOf members, p.1 ≠ field) := by
  have hfields : fieldsOf ((key, text) :: members) = (field, text) :: fieldsOf members := by
    simp [fieldsOf, hkey, hname]
  refine ⟨hfields, ?_⟩
  rw [isRecord_iff, isRecord_iff, hfields, List.forall_mem_cons, hkey, List.map_cons,
    List.nodup_cons, List.forall_mem_cons]
  have hnew : field ∉ (fieldsOf members).map Prod.fst ↔ ∀ p ∈ fieldsOf members, p.1 ≠ field := by
    simp only [List.mem_map, not_exists, not_and, ne_eq]
  rw [hnew]
  constructor
  · rintro ⟨⟨-, hnamed⟩, ⟨hdistinct, hrest⟩, htakes, htaken⟩
    exact ⟨htakes, ⟨hnamed, hrest, htaken⟩, hdistinct⟩
  · rintro ⟨htakes, ⟨hnamed, hrest, htaken⟩, hdistinct⟩
    exact ⟨⟨rfl, hnamed⟩, ⟨hdistinct, hrest⟩, htakes, htaken⟩

end Members

/-- An object is read field by field; none of them may have been seen before. -/
theorem isSome_ofMembers?_iff (doc : Metadata) (seen : List Field)
    {members : List (List StringPart × Syntax)} :
    (ofMembers? doc seen members).isSome = true ↔
      IsRecord members ∧ ∀ p ∈ fieldsOf members, p.1 ∉ seen := by
  induction members generalizing doc seen with
  | nil => simp [ofMembers?, isRecord_iff, fieldsOf]
  | cons member members ih =>
    obtain ⟨key, text⟩ := member
    cases hkey : string? key with
    | none => simp [ofMembers?, isRecord_iff, hkey]
    | some name =>
      cases hname : Field.ofName? name with
      | none =>
        obtain ⟨hfields, hrecord⟩ := isRecord_cons_of_unknown text members hkey hname
        rw [hfields, hrecord, ← ih doc]
        simp [ofMembers?, hkey, hname]
      | some field =>
        obtain ⟨hfields, hrecord⟩ := isRecord_cons_of_known text members hkey hname
        rw [hfields, hrecord, List.forall_mem_cons]
        by_cases hseen : field ∈ seen
        · simp [ofMembers?, hkey, hname, hseen]
        rw [← Field.isSome_set_iff doc]
        cases hset : field.set doc text with
        | none => simp [ofMembers?, hkey, hname, hseen, hset]
        | some doc' =>
          -- what the later fields may not be now includes this one
          have hrest := ih doc' (field :: seen)
          simp only [List.mem_cons, not_or, forall_and] at hrest
          simpa [ofMembers?, hkey, hname, hseen, hset, and_assoc] using hrest

/-! ## Texts -/

/-- The text is a JSON object. -/
def IsObject (text : String) : Prop := ∃ members, Syntax.read text = some (.object members)

/-- The text is a JSON array of the values of fields, by their places. -/
def IsFieldArray (text : String) : Prop :=
  ∃ items, Syntax.read text = some (.array items) ∧ IsFieldList items

theorem isSome_ofSyntax?_iff {text : Syntax} :
    (ofSyntax? text).isSome = true ↔
      (∃ members, text = .object members ∧ IsRecord members) ∨
        ∃ items, text = .array items ∧ IsFieldList items := by
  cases text with
  | object members => simp [ofSyntax?, isSome_ofMembers?_iff]
  | array items => simp [ofSyntax?, isSome_ofItems?_iff, IsFieldList]
  | _ => simp [ofSyntax?]

/-- The texts that pass for documents: the records and the arrays of fields. -/
theorem syntaxCheck_eq_ok_iff {text : String} :
    syntaxCheck text = .ok () ↔
      (∃ members, Syntax.read text = some (.object members) ∧ IsRecord members) ∨
        IsFieldArray text := by
  have hok : syntaxCheck text = .ok () ↔ ((Syntax.read text).bind ofSyntax?).isSome = true := by
    unfold syntaxCheck read
    cases (Syntax.read text).bind ofSyntax? <;> simp [Except.map]
  rw [hok, IsFieldArray]
  cases htext : Syntax.read text with
  | none => simp
  | some syn => simp [isSome_ofSyntax?_iff]

/-- A text that passes for a document is an object, unless it is an array of fields. -/
theorem isObject_of_syntaxCheck_iff (text : String) :
    (syntaxCheck text = .ok () → IsObject text) ↔ ¬ IsFieldArray text := by
  rw [syntaxCheck_eq_ok_iff]
  constructor
  · rintro hobject ⟨items, hread, hlist⟩
    obtain ⟨members, hmembers⟩ := hobject (.inr ⟨items, hread, hlist⟩)
    rw [hread] at hmembers
    cases hmembers
  · rintro harray (⟨members, hread, -⟩ | hfields)
    · exact ⟨members, hread⟩
    · exact absurd hfields harray

/-- The array of a kind of values and a default passes for a document. -/
theorem not_syntaxCheck_always_object :
    ¬ ∀ text, syntaxCheck text = .ok () → IsObject text := by
  intro hobject
  obtain ⟨members, hmembers⟩ := hobject "[\"u8\", 3]" (by decide +kernel)
  have hkind : (Syntax.read "[\"u8\", 3]").all (fun | .object _ => false | _ => true) = true := by
    decide +kernel
  rw [hmembers] at hkind
  cases hkind

end Metadata
end InstrumentBus
