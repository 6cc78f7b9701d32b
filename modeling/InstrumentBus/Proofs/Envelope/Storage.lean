import Mathlib
import InstrumentBus.Proofs.Envelope.Values

/-!
# Where the value of an envelope lies

A value lies in the buffer of its envelope, in memory of its own or in a constant of the program, and
a flag says whether it is a constant. `Envelope.Faithful` is what keeps these in step: the flag and the
place follow from the value and from the size of the buffer, and a buffer that is in use holds the
bytes of the value and no others.

`Envelope.saying` is what an envelope says, without the place of its bytes. `saying_edit` gives what
every change of an envelope does to it, `saying_cloneInto` what a copy says.
-/

namespace InstrumentBus

namespace Value

variable {v : Value} {kind : InlineKind} {bytes : ByteArray}

theorem byteLength_of_inline? (h : v.inline? = some (kind, bytes)) : v.byteLength = bytes.size := by
  cases v <;> cases h <;> rfl

/-- Text, documents and bytes may lie in a buffer, and nothing else. -/
theorem isPointer_eq_isSome (v : Value) : v.type.isPointer = v.inline?.isSome := by
  cases v <;> rfl

theorem isPointer_of_inline? (h : v.inline? = some (kind, bytes)) : v.type.isPointer = true := by
  rw [isPointer_eq_isSome, h]
  rfl

theorem isValidUTF8_of_inline? (h : v.inline? = some (kind, bytes)) (hkind : kind ≠ .bin) :
    bytes.IsValidUTF8 := by
  cases v <;> cases h
  · exact String.isValidUTF8 _
  · exact String.isValidUTF8 _
  · exact absurd rfl hkind

end Value

namespace Envelope

variable {sizes : BufferSizes} {e e' : Envelope} {v : Stored} {kind : InlineKind}

/-! ## The place of a value -/

theorem value_of_stored (h : e.payload = .stored v) : e.value = v.value := by
  unfold value
  rw [h]

theorem isInline_of_stored (h : e.payload = .stored v) : e.isInline = false := by
  unfold isInline
  rw [h]

theorem isInline_of_inline {length : Nat} (h : e.payload = .inline kind length) :
    e.isInline = true := by
  unfold isInline
  rw [h]

/-- The buffer, the place of the value and the flag for constants are in step. -/
structure Faithful (sizes : BufferSizes) (e : Envelope) : Prop where
  limit_eq : e.buffer.limit = sizes.limit e.sizeClass
  const_iff : e.flags.const = true ↔ ∃ v, e.payload = .stored v ∧ v.isConst = true
  /-- In the buffer lies whatever may lie there. -/
  inline_iff : e.isInline = true ↔ e.flags.const = false ∧ e.value.type.isPointer = true ∧
    e.value.byteLength ≤ sizes.limit e.sizeClass
  /-- The buffer holds the bytes of the value, which spell a text if the value is one. -/
  bytes_eq : ∀ kind length, e.payload = .inline kind length →
    e.value.inline? = some (kind, e.buffer.bytes) ∧ length = e.buffer.bytes.size ∧
      (kind ≠ .bin → e.buffer.bytes.IsValidUTF8)

namespace Faithful

/-- It is a matter of payload, buffer and flag alone. -/
theorem congr (h : e.Faithful sizes) (hpayload : e'.payload = e.payload)
    (hbuffer : e'.buffer = e.buffer) (hconst : e'.flags.const = e.flags.const) :
    e'.Faithful sizes := by
  have hvalue : e'.value = e.value := by
    unfold value
    rw [hpayload, hbuffer]
  have hinline : e'.isInline = e.isInline := by
    unfold isInline
    rw [hpayload]
  have hclass : e'.sizeClass = e.sizeClass := congrArg Buffer.sizeClass hbuffer
  constructor
  · rw [hbuffer, hclass]
    exact h.limit_eq
  · rw [hconst, hpayload]
    exact h.const_iff
  · rw [hinline, hconst, hvalue, hclass]
    exact h.inline_iff
  · rw [hpayload, hvalue, hbuffer]
    exact h.bytes_eq

/-- A value may lie outside of the buffer if it is a constant or cannot lie inside. -/
theorem of_stored (hlimit : e.buffer.limit = sizes.limit e.sizeClass) (hpayload : e.payload = .stored v)
    (hconst : e.flags.const = v.isConst)
    (houtside : v.isConst = false → v.value.type.isPointer = true →
      sizes.limit e.sizeClass < v.value.byteLength) : e.Faithful sizes := by
  refine ⟨hlimit, ?_, ?_, ?_⟩
  · rw [hconst, hpayload]
    constructor
    · exact fun h => ⟨v, rfl, h⟩
    · rintro ⟨v', heq, h⟩
      cases heq
      exact h
  · rw [isInline_of_stored hpayload, hconst, value_of_stored hpayload]
    constructor
    · exact fun h => absurd h Bool.false_ne_true
    · rintro ⟨hplain, hpointer, hfits⟩
      exact absurd hfits (Nat.not_le.mpr (houtside hplain hpointer))
  · intro kind length hinside
    rw [hpayload] at hinside
    cases hinside

/-- A value lies inside if its bytes are there and fit. -/
theorem of_inline {w : Value} (hlimit : e.buffer.limit = sizes.limit e.sizeClass)
    (hpayload : e.payload = .inline kind e.buffer.bytes.size)
    (hw : w.inline? = some (kind, e.buffer.bytes)) (hconst : e.flags.const = false)
    (hfits : e.buffer.bytes.size ≤ e.buffer.limit) : e.Faithful sizes := by
  have hvalue : e.value = w := by
    unfold value
    rw [hpayload]
    show kind.value (e.buffer.bytes.extract 0 e.buffer.bytes.size) = w
    rw [ByteArray.extract_zero_size]
    exact Value.value_of_inline? hw
  refine ⟨hlimit, ?_, ?_, ?_⟩
  · rw [hconst, hpayload]
    constructor
    · exact fun h => absurd h Bool.false_ne_true
    · rintro ⟨v, heq, -⟩
      cases heq
  · rw [isInline_of_inline hpayload, hvalue, Value.byteLength_of_inline? hw, ← hlimit]
    exact ⟨fun _ => ⟨hconst, Value.isPointer_of_inline? hw, hfits⟩, fun _ => rfl⟩
  · intro kind' length hinside
    rw [hpayload] at hinside
    cases hinside
    rw [hvalue]
    exact ⟨hw, rfl, Value.isValidUTF8_of_inline? hw⟩

theorem const_of_stored (h : e.Faithful sizes) (hpayload : e.payload = .stored v) :
    e.flags.const = v.isConst := by
  rw [Bool.eq_iff_iff, h.const_iff, hpayload]
  constructor
  · rintro ⟨v', heq, hconst⟩
    cases heq
    exact hconst
  · exact fun hconst => ⟨v, rfl, hconst⟩

theorem const_of_inline (h : e.Faithful sizes) {length : Nat}
    (hpayload : e.payload = .inline kind length) : e.flags.const = false :=
  (h.inline_iff.mp (isInline_of_inline hpayload)).1

end Faithful

/-! ## Storing and taking out -/

/-- Storing a value changes the payload, the bytes in the buffer and the flag for constants. Constants
are only referred to; what fits is put into the buffer, and all else is kept as it is. -/
theorem setValue_cases (e : Envelope) (v : Stored) :
    (v.isConst = true ∧ e.setValue v = { e.setConst true with payload := .stored v }) ∨
      (v.isConst = false ∧ ∃ kind bytes, v.value.inline? = some (kind, bytes) ∧
        bytes.size ≤ e.buffer.limit ∧ e.setValue v = { e.setConst false with
          payload := .inline kind bytes.size
          buffer := { e.buffer with bytes } }) ∨
      (v.isConst = false ∧ (v.value.type.isPointer = true → e.buffer.limit < v.value.byteLength) ∧
        e.setValue v = { e.setConst false with payload := .stored v }) := by
  unfold setValue
  by_cases hconst : v.isConst = true
  · rw [if_pos hconst]
    exact Or.inl ⟨hconst, rfl⟩
  rw [if_neg hconst]
  refine Or.inr ?_
  rw [Bool.not_eq_true] at hconst
  unfold storeInline?
  cases hinline : v.value.inline? with
  | none =>
    refine Or.inr ⟨hconst, fun hpointer => ?_, rfl⟩
    rw [Value.isPointer_eq_isSome, hinline] at hpointer
    cases hpointer
  | some stored =>
    obtain ⟨kind, bytes⟩ := stored
    by_cases hfits : bytes.size ≤ e.buffer.limit
    · refine Or.inl ⟨hconst, kind, bytes, rfl, hfits, ?_⟩
      simp only [setConst, Nat.not_lt.mpr hfits, if_false, Option.getD_some]
    · refine Or.inr ⟨hconst, fun _ => ?_, ?_⟩
      · rw [Value.byteLength_of_inline? hinline]
        exact Nat.not_le.mp hfits
      · simp only [setConst, Nat.not_le.mp hfits, if_true, Option.getD_none]

/-- Whatever lay there before, a stored value lies where it should. -/
theorem faithful_setValue (hlimit : e.buffer.limit = sizes.limit e.sizeClass) (v : Stored) :
    (e.setValue v).Faithful sizes := by
  rcases e.setValue_cases v with ⟨hconst, heq⟩ | ⟨-, kind, bytes, hinline, hfits, heq⟩ |
    ⟨hconst, hbig, heq⟩
  · rw [heq]
    refine .of_stored hlimit rfl hconst.symm fun hplain => ?_
    rw [hconst] at hplain
    cases hplain
  · rw [heq]
    exact .of_inline hlimit rfl hinline rfl hfits
  · rw [heq]
    refine .of_stored hlimit rfl hconst.symm fun _ hpointer => ?_
    show sizes.limit e.sizeClass < _
    rw [← hlimit]
    exact hbig hpointer

theorem faithful_takeValue (hlimit : e.buffer.limit = sizes.limit e.sizeClass) :
    e.takeValue.2.Faithful sizes := by
  refine .of_stored hlimit rfl rfl fun _ hpointer => ?_
  cases hpointer

/-- What is taken out is the value that was there, and it is a constant if it was one. -/
theorem Faithful.takeValue (h : e.Faithful sizes) :
    e.takeValue.1.value = e.value ∧ e.takeValue.1.isConst = e.flags.const := by
  unfold Envelope.takeValue value
  cases hpayload : e.payload with
  | stored v => exact ⟨rfl, (h.const_of_stored hpayload).symm⟩
  | inline kind length =>
    rw [h.const_of_inline hpayload]
    exact ⟨rfl, rfl⟩

/-! ## What an envelope says -/

/-- What an envelope says, wherever its bytes lie. -/
structure Saying where
  topic : Topic
  value : Value
  const : Bool
  retain : Bool
  op : UInt8
  app : UInt8
  origin : Option SubscriberId
  call : Option PendingCall
  control : Option Control
  sizeClass : SizeClass

def saying (e : Envelope) : Saying where
  topic := e.topic
  value := e.value
  const := e.flags.const
  retain := e.flags.retain
  op := e.op
  app := e.app
  origin := e.origin
  call := e.call
  control := e.control
  sizeClass := e.sizeClass

/-- The ways to change an envelope. -/
inductive Edit
  | setValue (v : Stored)
  | copyValue (v : Value)
  | takeValue
  | setFlags (f : ValueFlags)
  | setTopic (topic : Topic)
  | setTags (op app : UInt8)
  | setOrigin (origin : Option SubscriberId)
  | setCall (call : Option PendingCall)
  | setControl (control : Option Control)

/-- Changes an envelope. -/
def edit (e : Envelope) : Edit → Envelope
  | .setValue v => e.setValue v
  | .copyValue v => e.copyValue v
  | .takeValue => e.takeValue.2
  | .setFlags f => e.setFlags f
  | .setTopic topic => { e with topic }
  | .setTags op app => { e with op, app }
  | .setOrigin origin => { e with origin }
  | .setCall call => { e with call }
  | .setControl control => { e with control }

namespace Saying

/-- What is said by nothing but an empty envelope. -/
def blank (topic : Topic) (c : SizeClass) : Saying where
  topic := topic
  value := .null
  const := false
  retain := false
  op := 0
  app := 0
  origin := none
  call := none
  control := none
  sizeClass := c

/-- What is said after a change: each has its own part of it, and the last one counts. -/
def edit (s : Saying) : Edit → Saying
  | .setValue v => { s with value := v.value, const := v.isConst }
  | .copyValue v => { s with value := v, const := false }
  | .takeValue => { s with value := .null, const := false }
  | .setFlags f => { s with retain := f.retain }
  | .setTopic topic => { s with topic }
  | .setTags op app => { s with op, app }
  | .setOrigin origin => { s with origin }
  | .setCall call => { s with call }
  | .setControl control => { s with control }

/-- What a copy says: sender, call and command stay behind. -/
def copied (s : Saying) : Saying := { s with origin := none, call := none, control := none }

end Saying

theorem saying_setValue (e : Envelope) (v : Stored) :
    (e.setValue v).saying = { e.saying with value := v.value, const := v.isConst } := by
  have hvalue := e.value_setValue v
  rcases e.setValue_cases v with ⟨hconst, heq⟩ | ⟨hconst, _, _, -, -, heq⟩ | ⟨hconst, -, heq⟩ <;>
  · rw [heq] at hvalue ⊢
    unfold saying
    rw [hvalue, hconst]
    rfl

/-- A change of an envelope changes what it says, and nothing else of it. -/
theorem saying_edit (e : Envelope) (change : Edit) : (e.edit change).saying = e.saying.edit change := by
  cases change with
  | setValue v => exact e.saying_setValue v
  | copyValue v => exact e.saying_setValue ⟨v, .owned⟩
  | _ => rfl

theorem Faithful.edit (h : e.Faithful sizes) (change : Edit) : (e.edit change).Faithful sizes := by
  cases change with
  | setValue v => exact faithful_setValue h.limit_eq v
  | copyValue v => exact faithful_setValue h.limit_eq ⟨v, .owned⟩
  | takeValue => exact faithful_takeValue h.limit_eq
  | _ => exact h.congr rfl rfl rfl

/-! ## Copies -/

/-- An empty envelope to copy another one into. -/
def blankCopy (e : Envelope) (buffer : Buffer) : Envelope :=
  { ofBuffer e.topic buffer with op := e.op, app := e.app }

/-- A value that lies in the buffer is put into that of the copy; else the copy refers to it. -/
theorem cloneInto_cases (e : Envelope) (buffer : Buffer) :
    (∃ v, e.payload = .stored v ∧
        e.cloneInto buffer = { e.blankCopy buffer with payload := .stored v, flags := e.flags }) ∨
      ∃ kind length, e.payload = .inline kind length ∧
        e.cloneInto buffer = { (e.blankCopy buffer).copyValue e.value with flags := e.flags } := by
  unfold cloneInto
  cases hpayload : e.payload with
  | stored v => exact Or.inl ⟨v, rfl, rfl⟩
  | inline kind length => exact Or.inr ⟨kind, length, rfl, rfl⟩

/-- A copy says the same, but for sender, call and command. -/
theorem saying_cloneInto (sizes : BufferSizes) (e : Envelope) :
    (e.cloneInto (sizes.buffer e.sizeClass)).saying = e.saying.copied := by
  rcases e.cloneInto_cases (sizes.buffer e.sizeClass) with ⟨v, hpayload, heq⟩ | ⟨_, _, -, heq⟩
  · rw [heq]
    unfold saying Saying.copied
    rw [value_of_stored hpayload]
    rfl
  · let empty := e.blankCopy (sizes.buffer e.sizeClass)
    have hsaying : (empty.copyValue e.value).saying =
        { empty.saying with value := e.value, const := false } := empty.saying_setValue ⟨e.value, .owned⟩
    -- the flags are those of the envelope in any case
    calc (e.cloneInto (sizes.buffer e.sizeClass)).saying
        = { (empty.copyValue e.value).saying with
            const := e.flags.const, retain := e.flags.retain } := by rw [heq]; rfl
      _ = e.saying.copied := by rw [hsaying]; rfl

/-- Around an empty buffer of the same size, a copy is as good as the envelope. -/
theorem Faithful.cloneInto (h : e.Faithful sizes) :
    (e.cloneInto (sizes.buffer e.sizeClass)).Faithful sizes := by
  rcases e.cloneInto_cases (sizes.buffer e.sizeClass) with ⟨v, hpayload, heq⟩ | ⟨_, _, hpayload, heq⟩
  · have hconst := h.const_of_stored hpayload
    rw [heq]
    refine .of_stored rfl rfl hconst fun hplain hpointer => ?_
    -- had it fitted, it would lie in the buffer
    by_contra hfits
    have hvalue := value_of_stored hpayload
    have hinline := h.inline_iff.mpr
      ⟨hconst.trans hplain, hvalue ▸ hpointer, hvalue ▸ Nat.not_lt.mp hfits⟩
    rw [isInline_of_stored hpayload] at hinline
    cases hinline
  · let empty := e.blankCopy (sizes.buffer e.sizeClass)
    have hstored : (empty.copyValue e.value).Faithful sizes := faithful_setValue rfl _
    have hconst : (empty.copyValue e.value).flags.const = false :=
      congrArg Saying.const (empty.saying_setValue ⟨e.value, .owned⟩)
    rw [heq]
    exact hstored.congr rfl rfl ((h.const_of_inline hpayload).trans hconst.symm)

/-- A copy lies where the envelope lies that it was copied from. -/
theorem isInline_cloneInto (h : e.Faithful sizes) :
    (e.cloneInto (sizes.buffer e.sizeClass)).isInline = e.isInline := by
  have hsaying := saying_cloneInto sizes e
  have hvalue := congrArg Saying.value hsaying
  have hconst := congrArg Saying.const hsaying
  have hclass := congrArg Saying.sizeClass hsaying
  simp only [saying, Saying.copied] at hvalue hconst hclass
  rw [Bool.eq_iff_iff, h.cloneInto.inline_iff, h.inline_iff, hvalue, hconst, hclass]

end Envelope
end InstrumentBus
