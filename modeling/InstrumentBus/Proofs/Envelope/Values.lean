import Mathlib
import InstrumentBus.Proofs.Dispatch.CallFree

/-!
# Values in envelopes

Where the bytes of a value lie depends on its size, what it is does not: `value_setValue` says that
an envelope holds the value that was put in last, `clone_spec` that a copy holds the same. All else
in an envelope stays as it was, up to what a copy leaves behind.
-/

namespace InstrumentBus

/-- A text is read back from its bytes. -/
theorem textOfBytes_toUTF8 (s : String) : textOfBytes s.toUTF8 = s := by
  have hread : String.fromUTF8? s.toUTF8 = some s := by
    unfold String.fromUTF8?
    rw [String.toUTF8_eq_toByteArray, dif_pos s.isValidUTF8]
    rfl
  unfold textOfBytes
  rw [hread]
  rfl

/-- A value of a kind that goes into buffers is read back from its bytes. -/
theorem Value.value_of_inline? {v : Value} {kind : InlineKind} {bytes : ByteArray}
    (h : v.inline? = some (kind, bytes)) : kind.value bytes = v := by
  unfold Value.inline? at h
  split at h
  · cases h
    exact congrArg Value.str (textOfBytes_toUTF8 _)
  · cases h
    exact congrArg Value.json (textOfBytes_toUTF8 _)
  · cases h
    rfl
  · cases h

namespace Envelope

variable {e e' : Envelope}

/-- What is put into a buffer is in it, and nothing but the buffer changes. -/
theorem storeInline?_eq_some {v : Value} (h : e.storeInline? v = some e') :
    e'.value = v ∧ e'.flags = e.flags ∧ e'.op = e.op ∧ e'.app = e.app ∧ e'.origin = e.origin := by
  unfold storeInline? at h
  split at h
  · cases h
  · rename_i kind bytes hinline
    split at h
    · cases h
    · cases h
      refine ⟨?_, rfl, rfl, rfl, rfl⟩
      show kind.value (bytes.extract 0 bytes.size) = v
      rw [ByteArray.extract_zero_size]
      exact Value.value_of_inline? hinline

/-- An envelope holds the value that was put in last; its sender, its tags and its wish to be kept
are as before. -/
theorem setValue_spec (e : Envelope) (v : Stored) :
    (e.setValue v).value = v.value ∧ (e.setValue v).isRetained = e.isRetained ∧
      (e.setValue v).op = e.op ∧ (e.setValue v).app = e.app ∧
      (e.setValue v).origin = e.origin := by
  unfold setValue
  split
  · exact ⟨rfl, rfl, rfl, rfl, rfl⟩
  · cases hstore : (e.setConst false).storeInline? v.value with
    | none =>
      simp only [hstore, Option.getD_none]
      exact ⟨rfl, rfl, rfl, rfl, rfl⟩
    | some e' =>
      obtain ⟨hvalue, hflags, hop, happ, horigin⟩ := storeInline?_eq_some hstore
      simp only [hstore, Option.getD_some]
      refine ⟨hvalue, ?_, hop, happ, horigin⟩
      unfold isRetained
      rw [hflags]
      rfl

@[simp] theorem value_setValue (e : Envelope) (v : Stored) : (e.setValue v).value = v.value :=
  (setValue_spec e v).1

@[simp] theorem origin_setValue (e : Envelope) (v : Stored) :
    (e.setValue v).origin = e.origin := (setValue_spec e v).2.2.2.2

@[simp] theorem topic_setValue (e : Envelope) (v : Stored) :
    (e.setValue v).topic = e.topic := (setValue_eq e v).1

@[simp] theorem make_origin (sizes : BufferSizes) (topic : Topic) (v : Stored) (f : ValueFlags) :
    (make sizes topic v f).origin = none := by
  show ((ofBuffer topic _).setValue v).origin = none
  rw [origin_setValue]
  rfl

/-- An envelope that is made holds what it is made of. -/
theorem make_spec (sizes : BufferSizes) (topic : Topic) (v : Stored) (f : ValueFlags) :
    (make sizes topic v f).value = v.value ∧ (make sizes topic v f).isRetained = f.retain := by
  refine ⟨?_, rfl⟩
  show ((ofBuffer topic _).setValue v).value = v.value
  rw [value_setValue]

/-- A copy says the same about the same topic. -/
theorem clone_spec (e : Envelope) :
    e.clone.topic = e.topic ∧ e.clone.value = e.value ∧ e.clone.isRetained = e.isRetained ∧
      e.clone.op = e.op ∧ e.clone.app = e.app := by
  unfold clone cloneInto
  cases hpayload : e.payload with
  | stored v =>
    refine ⟨rfl, ?_, rfl, rfl, rfl⟩
    unfold value
    rw [hpayload]
  | inline kind length =>
    simp only
    have hspec := setValue_spec { ofBuffer e.topic e.siblingBuffer with op := e.op, app := e.app }
      ⟨e.value, .owned⟩
    obtain ⟨hvalue, -, hop, happ, -⟩ := hspec
    exact ⟨(setValue_eq _ _).1, hvalue, rfl, hop, happ⟩

end Envelope
end InstrumentBus
