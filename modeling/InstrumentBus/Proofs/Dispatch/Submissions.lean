import Mathlib
import InstrumentBus.Proofs.Dispatch.Machine
import InstrumentBus.Proofs.Dispatch.Ownership

/-!
# What clients and backends hand over

A submission adds to a queue and, if its client waits, makes a slot. `Sound.accept` says that the
records of open slots stay accounted for, `handed_accept` that all that belongs to the dispatcher
stays as it is.
-/

namespace InstrumentBus

variable {base : CallSlots} {taken : List Envelope} {b b' b'' : Bus} {e : Envelope}

namespace Bus

/-! ## The records of slots -/

/-- A client that waits has its slot made; the record goes along with the envelope, or is dropped
at once. -/
theorem Sound.submit (h : b.Sound base taken) (he : e.call = none) (timeout : Nat) :
    (b.submit e timeout false).2.Sound base taken := by
  unfold Bus.submit
  split
  · exact h
  · split
    · exact h
    · split
      · cases hpush : b.pushCommand? e with
        | none => exact h
        | some b' => exact h.quiet (quiet_pushCommand hpush he)
      · simp only [Bool.false_eq_true, if_false]
        set topic := (e.topic.withSuffix .returnCode).text
        have hcreated := h.calls.create topic (b.clock + timeout)
        generalize hcreate : b.calls.create topic (b.clock + timeout) = created at hcreated ⊢
        have hpending : created.2.pending = b.calls.pending := by rw [← hcreate]; rfl
        have htopic : created.1.topic = topic := by rw [← hcreate]; rfl
        have hdevice : ∀ call ∈ created.2.pending.waiting, ∃ t : Topic,
            t.devicePrefix.isSome ∧ call.topic = (t.withSuffix .returnCode).text := by
          rw [hpending]
          exact h.device
        split
        · rename_i b' hpush
          obtain ⟨-, rfl⟩ := pushCommand?_eq_some hpush
          refine ⟨?_, ?_, hdevice, h.backend, h.held⟩
          · -- the new record travels behind all others
            rw [← List.append_assoc, List.filterMap_append]
            exact hcreated.perm (List.perm_append_singleton _ _).symm
          · rw [← List.append_assoc]
            intro e' he' call hcall
            rcases List.mem_append.mp he' with he' | he'
            · exact h.addressed e' he' call hcall
            · rw [List.mem_singleton.mp he'] at hcall ⊢
              rw [← Option.some.inj hcall]
              exact htopic
        · -- the queue is closed: dropping the envelope ends the call
          exact ⟨hcreated.resolve _, h.addressed, hdevice, h.backend, h.held⟩

theorem Sound.send (h : b.Sound base taken) (he : e.call = none) :
    (b.send e).2.Sound base taken := by
  unfold Bus.send
  split
  · exact h
  · split
    · exact h
    · cases hpush : b.pushBackend? e with
      | none => exact h
      | some b' =>
        obtain ⟨backend, hqueue, rfl⟩ := Option.map_eq_some_iff.mp hpush
        exact ⟨h.calls, h.addressed, h.device, h.backend.push he hqueue, h.held⟩

theorem Sound.registerDevice (h : b.Sound base taken) (name : String) :
    (b.registerDevice name).2.Sound base taken := by
  unfold Bus.registerDevice
  split
  · exact h
  · refine Sound.send ⟨h.calls, h.addressed, h.device, h.backend, ?_⟩ (textEnvelope_call ..)
    obtain ⟨htree, hinboxes⟩ := callFree_append.mp h.held
    refine callFree_append.mpr ⟨htree, ?_⟩
    rw [List.flatMap_append]
    exact callFree_append.mpr ⟨hinboxes, callFree_nil⟩

theorem Sound.unregisterDevice (h : b.Sound base taken) (name : String) :
    (b.unregisterDevice name).2.Sound base taken := by
  unfold Bus.unregisterDevice
  split
  · exact h
  · exact h.send (textEnvelope_call ..)

theorem Sound.requestEnd (h : b.Sound base taken) : b.requestEnd.Sound base taken := by
  unfold Bus.requestEnd
  split
  · exact h
  · have hclosed : ({ b with closed := true } : Bus).Sound base taken :=
      ⟨h.calls, h.addressed, h.device, h.backend, h.held⟩
    simp only
    cases hpush : pushCommand? { b with closed := true } _ with
    | none => exact hclosed
    | some b' => exact hclosed.quiet (quiet_pushCommand hpush (envelope_call ..))

theorem Sound.acceptRequest (h : b.Sound base taken) (r : Request) :
    (b.acceptRequest r).Sound base taken := by
  unfold Bus.acceptRequest
  split
  · exact h
  · rename_i e timeout hr
    exact h.submit (envelopeOf_call hr) timeout

theorem Sound.accept (h : b.Sound base taken) (s : Submission) : (b.accept s).Sound base taken := by
  cases s with
  | request r => exact h.acceptRequest r
  | shutdown => exact h.requestEnd
  | command e timeout => exact h.submit rfl timeout
  | send e => exact h.send rfl
  | registerDevice name => exact h.registerDevice name
  | unregisterDevice name => exact h.unregisterDevice name

theorem Sound.acceptLate (h : b.Sound base taken) (s : Submission) :
    (b.acceptLate s).Sound base taken := by
  unfold Bus.acceptLate
  split
  · have hopen : ({ b with closed := false } : Bus).Sound base taken :=
      ⟨h.calls, h.addressed, h.device, h.backend, h.held⟩
    have haccepted := hopen.accept s
    exact ⟨haccepted.calls, haccepted.addressed, haccepted.device, haccepted.backend,
      haccepted.held⟩
  · exact h.accept s

/-! ## What stays as it is -/

/-- The second bus comes from the first by what clients and backends hand over: only the dispatcher
touches what belongs to it, and a queue of commands that is closed stays as it is. -/
structure Handed (b b' : Bus) : Prop where
  pending_eq : b'.calls.pending = b.calls.pending
  tree_eq : b'.tree = b.tree
  devices_eq : b'.devices = b.devices
  clock_eq : b'.clock = b.clock
  finished_eq : b'.finished = b.finished
  commands_eq : b.commands.closed = true → b'.commands = b.commands

theorem Handed.refl (b : Bus) : b.Handed b := ⟨rfl, rfl, rfl, rfl, rfl, fun _ => rfl⟩

theorem Handed.trans (h : b.Handed b') (h' : b'.Handed b'') : b.Handed b'' where
  pending_eq := h'.pending_eq.trans h.pending_eq
  tree_eq := h'.tree_eq.trans h.tree_eq
  devices_eq := h'.devices_eq.trans h.devices_eq
  clock_eq := h'.clock_eq.trans h.clock_eq
  finished_eq := h'.finished_eq.trans h.finished_eq
  commands_eq hclosed := by
    have hsame := h.commands_eq hclosed
    rw [h'.commands_eq (by rw [hsame]; exact hclosed), hsame]

theorem handed_pushCommand (h : b.pushCommand? e = some b') : b.Handed b' := by
  obtain ⟨hopen, rfl⟩ := pushCommand?_eq_some h
  refine ⟨rfl, rfl, rfl, rfl, rfl, fun hclosed => ?_⟩
  rw [hopen] at hclosed
  cases hclosed

theorem handed_setSlots (b : Bus) (slots : CallSlots) :
    b.Handed { b with calls := { b.calls with slots } } :=
  ⟨rfl, rfl, rfl, rfl, rfl, fun _ => rfl⟩

theorem handed_setInboxes (b : Bus) (inboxes : List Queue) : b.Handed { b with inboxes } :=
  ⟨rfl, rfl, rfl, rfl, rfl, fun _ => rfl⟩

theorem handed_setClosed (b : Bus) (closed : Bool) : b.Handed { b with closed } :=
  ⟨rfl, rfl, rfl, rfl, rfl, fun _ => rfl⟩

theorem handed_submit (b : Bus) (e : Envelope) (timeout : Nat) :
    b.Handed (b.submit e timeout false).2 := by
  unfold submit
  split
  · exact Handed.refl b
  · split
    · exact Handed.refl b
    · split
      · cases hpush : b.pushCommand? e with
        | none => exact Handed.refl b
        | some b' => exact handed_pushCommand hpush
      · simp only [Bool.false_eq_true, if_false]
        split
        · rename_i b' hpush
          exact (handed_setSlots b _).trans (handed_pushCommand hpush)
        · exact handed_setSlots b _

theorem handed_send (b : Bus) (e : Envelope) : b.Handed (b.send e).2 := by
  unfold send
  split
  · exact Handed.refl b
  · split
    · exact Handed.refl b
    · cases hpush : b.pushBackend? e with
      | none => exact Handed.refl b
      | some b' =>
        obtain ⟨backend, -, rfl⟩ := Option.map_eq_some_iff.mp hpush
        exact ⟨rfl, rfl, rfl, rfl, rfl, fun _ => rfl⟩

theorem handed_registerDevice (b : Bus) (name : String) : b.Handed (b.registerDevice name).2 := by
  unfold registerDevice
  split
  · exact Handed.refl b
  · exact (handed_setInboxes b _).trans (handed_send _ _)

theorem handed_unregisterDevice (b : Bus) (name : String) :
    b.Handed (b.unregisterDevice name).2 := by
  unfold unregisterDevice
  split
  · exact Handed.refl b
  · exact handed_send b _

theorem handed_acceptRequest (b : Bus) (r : Request) : b.Handed (b.acceptRequest r) := by
  unfold acceptRequest
  split
  · exact Handed.refl b
  · exact handed_submit b _ _

theorem handed_requestEnd (b : Bus) : b.Handed b.requestEnd := by
  unfold requestEnd
  split
  · exact Handed.refl b
  · simp only
    cases hpush : pushCommand? { b with closed := true } _ with
    | none => exact handed_setClosed b true
    | some b' => exact (handed_setClosed b true).trans (handed_pushCommand hpush)

theorem handed_accept (b : Bus) (s : Submission) : b.Handed (b.accept s) := by
  cases s with
  | request r => exact handed_acceptRequest b r
  | shutdown => exact handed_requestEnd b
  | command e timeout => exact handed_submit b e.bare timeout
  | send e => exact handed_send b e.bare
  | registerDevice name => exact handed_registerDevice b name
  | unregisterDevice name => exact handed_unregisterDevice b name

theorem handed_acceptLate (b : Bus) (s : Submission) : b.Handed (b.acceptLate s) := by
  unfold acceptLate
  split
  · exact ((handed_setClosed b false).trans (handed_accept _ s)).trans (handed_setClosed _ true)
  · exact handed_accept b s

end Bus
end InstrumentBus
