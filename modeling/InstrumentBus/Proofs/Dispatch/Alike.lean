import Mathlib
import InstrumentBus.Proofs.Dispatch.Deeds
import InstrumentBus.Proofs.Dispatch.Roster

/-!
# Buses that differ in answers

Listeners answer what they hear by statuses. `Bus.Alike` relates two buses that differ in nothing
that matters to anyone but those who wait for an answer or listen for return codes: the outcomes of
calls, and the return codes that were heard. Listeners make no requests here (`Listener.Silent`), so
a status is all that comes back from them.

The relation is symmetric and transitive. What a listener refuses makes the bus announce a return
code more, and by `Alike.emitReturnCode` it does not matter which code. All that is left of it is that
the topic is known (`alike_emitReturnCode`), so at a topic that is there already it does not matter
whether any code is announced. So both buses may go on as one did: `Alike.process`, `Alike.perform`.
-/

namespace InstrumentBus

/-! ## Calls -/

namespace CallTable

/-- How many calls were made so far. -/
def made (t : CallTable) : Nat := t.slots.outcomes.length

@[simp] theorem made_resolve (t : CallTable) (call : PendingCall) (o : CallOutcome) :
    (t.resolve call o).made = t.made := CallSlots.length_resolve ..

@[simp] theorem made_complete (t : CallTable) (topic : String) (o : CallOutcome) :
    (t.complete topic o).2.made = t.made := by
  unfold complete
  split
  · rfl
  · exact made_resolve ..

@[simp] theorem made_expireDue (t : CallTable) (now : Nat) : (t.expireDue now).2.made = t.made :=
  CallSlots.length_resolveAll ..

@[simp] theorem made_abortAll (t : CallTable) : t.abortAll.2.made = t.made :=
  CallSlots.length_resolveAll ..

@[simp] theorem made_nextDeadline (t : CallTable) : t.nextDeadline.2.made = t.made := rfl

@[simp] theorem made_foldl_drop (t : CallTable) (calls : List PendingCall) :
    (calls.foldl drop t).made = t.made := by
  induction calls generalizing t with
  | nil => rfl
  | cons call calls ih => rw [List.foldl_cons, ih, drop, made_resolve]

/-- The next call is told from others by the number of those before. -/
theorem create_of_made_eq {t t' : CallTable} (h : t'.made = t.made) (topic : String)
    (deadline : Nat) :
    (t'.create topic deadline).1 = (t.create topic deadline).1 ∧
      (t'.create topic deadline).2.made = (t.create topic deadline).2.made := by
  have hslots : t'.slots.outcomes.length = t.slots.outcomes.length := h
  constructor
  · simp only [create, CallSlots.create, hslots]
  · simp only [create, CallSlots.create, made, List.length_append, hslots]

end CallTable

/-! ## Listeners -/

/-- The listener makes no requests while it is called. -/
def Listener.Silent (l : Listener) : Prop := ∀ k, (l.react k).requests = []

def Envelope.isReturnCode (e : Envelope) : Bool := e.topic.suffix == some .returnCode

/-- A return code that a listener has heard. -/
def Event.isCode : Event → Bool
  | .heard _ e => e.isReturnCode
  | .answered _ _ _ => false

namespace Audience

variable {a a' a'' : Audience} {n : Nat} {e : Envelope}

/-- What happened at listeners but for the return codes that they heard. -/
def apartFromCodes (a : Audience) : List Event := a.record.filter (!·.isCode)

/-- Each listener has its part of it. -/
theorem filter_heardBy (a : Audience) (n : Nat) :
    (a.heardBy n).filter (!·.isReturnCode) = heardBy ⟨a.listeners, a.apartFromCodes⟩ n := by
  unfold heardBy apartFromCodes
  rw [List.filter_filterMap, List.filterMap_filter]
  refine List.filterMap_congr fun x _ => ?_
  cases x with
  | heard m e =>
    by_cases hm : m = n
    · cases hcode : e.isReturnCode <;> simp [hm, hcode, Event.isCode, Option.filter]
    · simp [hm]
  | answered m index answer => rfl

/-- No listener makes requests. -/
def Silent (a : Audience) : Prop := ∀ l ∈ a.listeners, l.Silent

/-- The same happened at the same listeners, but for return codes. -/
structure Alike (a a' : Audience) : Prop where
  names_eq : a'.listeners.map Listener.name = a.listeners.map Listener.name
  record_eq : a'.apartFromCodes = a.apartFromCodes
  silent : a.Silent
  silent' : a'.Silent

theorem Silent.alike (h : a.Silent) : a.Alike a := ⟨rfl, rfl, h, h⟩

theorem Alike.symm (h : a.Alike a') : a'.Alike a :=
  ⟨h.names_eq.symm, h.record_eq.symm, h.silent', h.silent⟩

theorem Alike.trans (h : a.Alike a') (h' : a'.Alike a'') : a.Alike a'' :=
  ⟨h'.names_eq.trans h.names_eq, h'.record_eq.trans h.record_eq, h.silent, h'.silent'⟩

theorem Alike.length_eq (h : a.Alike a') : a'.listeners.length = a.listeners.length := by
  have hlength := congrArg List.length h.names_eq
  rw [List.length_map, List.length_map] at hlength
  exact hlength

theorem named?_eq (a : Audience) (name : String) :
    a.named? name =
      ((a.listeners.map Listener.name).zipIdx.findRev? (·.1 == name)).map (·.2) := by
  unfold named?
  rw [List.zipIdx_map, List.findRev?_eq_find?_reverse, List.findRev?_eq_find?_reverse,
    ← List.map_reverse, List.find?_map, Option.map_map]
  rfl

/-- Whom a name means depends on names alone. -/
theorem Alike.identity_eq (h : a.Alike a') (name : String) : a'.identity name = a.identity name := by
  unfold identity
  rw [a'.named?_eq, a.named?_eq, h.names_eq, h.length_eq]

theorem Silent.add {l : Listener} (h : a.Silent) (hl : l.Silent) : (a.add l).Silent :=
  List.forall_mem_append.mpr ⟨h, List.forall_mem_singleton.mpr hl⟩

/-- Listeners of one name may come to both. -/
theorem Alike.add {l l' : Listener} (h : a.Alike a') (hname : l'.name = l.name) (hl : l.Silent)
    (hl' : l'.Silent) : (a.add l).Alike (a'.add l') := by
  refine ⟨?_, h.record_eq, h.silent.add hl, h.silent'.add hl'⟩
  unfold Audience.add
  rw [List.map_append, List.map_append, h.names_eq, List.map_singleton, List.map_singleton, hname]

/-! ### Telling a listener -/

theorem Silent.requests_hear (h : a.Silent) (n : Nat) (e : Envelope) :
    (a.hear n e).1.requests = [] := by
  unfold hear
  split
  · rfl
  · rename_i l hl
    show l.next.requests = []
    unfold Listener.next
    cases l.kind <;> exact h l (List.mem_of_getElem? hl) l.heard

theorem Silent.hear (h : a.Silent) (n : Nat) (e : Envelope) : (a.hear n e).2.Silent := by
  unfold Audience.hear
  split
  · exact h
  · rename_i l hl
    intro l' hl'
    rcases List.mem_or_eq_of_mem_set hl' with hmem | rfl
    · exact h l' hmem
    · exact h l (List.mem_of_getElem? hl)

theorem names_hear (a : Audience) (n : Nat) (e : Envelope) :
    (a.hear n e).2.listeners.map Listener.name = a.listeners.map Listener.name := by
  unfold hear
  split
  · rfl
  · rename_i l hl
    have hlt : n < a.listeners.length := (List.getElem?_eq_some_iff.mp hl).1
    refine List.ext_getElem? fun m => ?_
    rw [List.getElem?_map, List.getElem?_map]
    by_cases hm : n = m
    · subst hm
      rw [List.getElem?_set_self hlt, hl]
      rfl
    · rw [List.getElem?_set_ne hm]

theorem record_hear (a : Audience) (n : Nat) (e : Envelope) :
    (a.hear n e).2.record =
      if n < a.listeners.length then .heard n e :: a.record else a.record := by
  unfold hear
  split
  · rename_i hnone
    rw [if_neg (Nat.not_lt.mpr (List.getElem?_eq_none_iff.mp hnone))]
  · rename_i l hl
    rw [if_pos (List.getElem?_eq_some_iff.mp hl).1]

/-- Two alike audiences hear the same. -/
theorem Alike.hear (h : a.Alike a') (n : Nat) (e : Envelope) :
    (a.hear n e).2.Alike (a'.hear n e).2 := by
  refine ⟨?_, ?_, h.silent.hear n e, h.silent'.hear n e⟩
  · rw [names_hear, names_hear, h.names_eq]
  · unfold apartFromCodes
    rw [record_hear, record_hear, h.length_eq]
    have hrecord : a'.record.filter (!·.isCode) = a.record.filter (!·.isCode) := h.record_eq
    by_cases hn : n < a.listeners.length
    · rw [if_pos hn, if_pos hn, List.filter_cons, List.filter_cons, hrecord]
    · rw [if_neg hn, if_neg hn, hrecord]

/-- Hearing a return code leaves an audience alike. -/
theorem Silent.alike_hear (h : a.Silent) (n : Nat) (he : e.topic.suffix = some .returnCode) :
    a.Alike (a.hear n e).2 := by
  refine ⟨names_hear a n e, ?_, h, h.hear n e⟩
  unfold apartFromCodes
  rw [record_hear]
  have hcode : (Event.heard n e).isCode = true := beq_iff_eq.mpr he
  split
  · exact List.filter_cons_of_neg (by simp [hcode])
  · rfl

end Audience

/-! ## Return codes are for listeners -/

/-- The tree is in order, and nobody but listeners takes return codes. -/
def Tree.Discreet (t : Tree) : Prop :=
  t.Rooted ∧ ∃ L, t.contents.Enrolled L ∧
    ∀ n ∈ L, n.subscription.flags.returnCode = true → n.who.isClient = true

/-- A deed that lets nobody but listeners take return codes. -/
def Deed.Discreet : Deed → Prop
  | .enlist _ s => s.flags.returnCode = true → s.subscriber.isClient = true
  | _ => True

namespace Tree.Discreet

variable {t t' : Tree} {path : List String} {node : NodeId} {b : Bus} {deed : Deed} {deeds : List Deed}

theorem of_listeners (h : t.Discreet) (hrooted : t'.Rooted)
    (hlisteners : t'.contents.listeners = t.contents.listeners) : t'.Discreet := by
  obtain ⟨-, L, henrolled, hL⟩ := h
  exact ⟨hrooted, L, henrolled.of_listeners hlisteners, hL⟩

theorem made (h : t.Discreet) (hmade : t.Made path node t') : t'.Discreet := by
  refine h.of_listeners hmade.rooted ?_
  rw [hmade.contents_eq]
  rfl

theorem setRetained (h : t.Discreet) (hnode : t.descend root path = some node) (e : Envelope) :
    (t.setRetained node e).Discreet := by
  obtain ⟨hrooted, hcontents⟩ := h.1.setRetained hnode e
  refine h.of_listeners hrooted ?_
  rw [hcontents]

/-- Whoever receives a return code is a listener. -/
theorem isClient_of_mem_recipients (h : t.Discreet) {topic : Topic}
    (hnode : t.descend root topic.segments = some node) {origin : Option SubscriberId}
    {who : SubscriberId} (hwho : who ∈ t.recipients node .returnCode origin) :
    who.isClient = true := by
  obtain ⟨hrooted, L, henrolled, hL⟩ := h
  rw [hrooted.recipients_eq hnode, henrolled.recipients_eq] at hwho
  obtain ⟨n, hn, rfl⟩ := List.mem_map.mp hwho
  obtain ⟨hmem, htakes⟩ := List.mem_filter.mp ((L.invited_perm _ _ _).mem_iff.mp hn)
  unfold Entry.takes at htakes
  rw [Bool.and_eq_true, Bool.and_eq_true] at htakes
  exact hL n hmem htakes.1.2

theorem perform (h : b.tree.Discreet) (hdeed : deed.Discreet) : (b.perform deed).tree.Discreet := by
  obtain ⟨hrooted, L, henrolled, hL⟩ := h
  obtain ⟨posts, -, heffect⟩ := Bus.effect_perform hrooted deed
  refine ⟨heffect.rooted, L.after deed, ?_, ?_⟩
  · rw [heffect.contents_eq]
    exact henrolled.after deed
  · intro n hn
    cases deed with
    | publish e | announce t code => exact hL n hn
    | enlist t s =>
      rcases List.mem_append.mp hn with hn | hn
      · exact hL n hn
      · rw [List.mem_singleton.mp hn]
        exact hdeed
    | dismiss t who | dismissAll who => exact hL n (List.mem_of_mem_filter hn)
    | clear => cases hn

theorem performAll (h : b.tree.Discreet) (hdeeds : ∀ deed ∈ deeds, deed.Discreet) :
    (b.performAll deeds).tree.Discreet := by
  induction deeds generalizing b with
  | nil => exact h
  | cons deed deeds ih =>
    obtain ⟨hdeed, hdeeds⟩ := List.forall_mem_cons.mp hdeeds
    exact ih (h.perform hdeed) hdeeds

end Tree.Discreet

namespace Bus

variable {b b' b'' : Bus} {e : Envelope} {node : NodeId}

/-- The buses are the same but for the outcomes of calls and for what listeners were told of return
codes. -/
def Alike (b b' : Bus) : Prop :=
  ∃ calls audience, b' = { b with calls, audience } ∧ calls.made = b.calls.made ∧
    b.audience.Alike audience

namespace Alike

theorem refl (h : b.audience.Silent) : b.Alike b := ⟨b.calls, b.audience, rfl, rfl, h.alike⟩

theorem silent (h : b.Alike b') : b.audience.Silent := by
  obtain ⟨calls, audience, -, -, haudience⟩ := h
  exact haudience.silent

theorem symm (h : b.Alike b') : b'.Alike b := by
  obtain ⟨calls, audience, rfl, hmade, haudience⟩ := h
  exact ⟨b.calls, b.audience, rfl, hmade.symm, haudience.symm⟩

theorem trans (h : b.Alike b') (h' : b'.Alike b'') : b.Alike b'' := by
  obtain ⟨calls, audience, rfl, hmade, haudience⟩ := h
  obtain ⟨calls', audience', rfl, hmade', haudience'⟩ := h'
  exact ⟨calls', audience', rfl, hmade'.trans hmade, haudience.trans haudience'⟩

theorem tree_eq (h : b.Alike b') : b'.tree = b.tree := by
  obtain ⟨calls, audience, rfl, -⟩ := h
  rfl

theorem made_eq (h : b.Alike b') : b'.calls.made = b.calls.made := by
  obtain ⟨calls, audience, rfl, hmade, -⟩ := h
  exact hmade

/-- Calls may differ in all but their number. -/
theorem setCalls (h : b.Alike b') {calls calls' : CallTable} (hmade : calls'.made = calls.made) :
    ({ b with calls } : Bus).Alike { b' with calls := calls' } := by
  obtain ⟨-, audience, rfl, -, haudience⟩ := h
  exact ⟨calls', audience, rfl, hmade, haudience⟩

/-- On both sides calls may end in any way. -/
theorem endCalls (h : b.Alike b') {calls calls' : CallTable} (hmade : calls.made = b.calls.made)
    (hmade' : calls'.made = b'.calls.made) :
    ({ b with calls } : Bus).Alike { b' with calls := calls' } :=
  h.setCalls (hmade'.trans (h.made_eq.trans hmade.symm))

/-- The trees may be changed in the same way. -/
theorem setTree (h : b.Alike b') (tree : Tree) :
    ({ b with tree } : Bus).Alike { b' with tree } := by
  obtain ⟨calls, audience, rfl, hmade, haudience⟩ := h
  exact ⟨calls, audience, rfl, hmade, haudience⟩

end Alike

/-! ## Delivery -/

theorem callListener_of_silent (h : b.audience.Silent) (n : Nat) (e : Envelope) :
    (callListener n e b).2 = { b with audience := (b.audience.hear n e).2 } := by
  unfold callListener
  simp only
  rw [h.requests_hear]
  rfl

namespace Alike

/-- Whoever receives an envelope, its answer is lost on the rest of the bus. -/
theorem receive (h : b.Alike b') (who : SubscriberId) (e : Envelope) :
    (receive who e b).2.Alike (Bus.receive who e b').2 := by
  obtain ⟨calls, audience, rfl, hmade, haudience⟩ := h
  cases who with
  | client n =>
    show (callListener n e b).2.Alike (callListener n e { b with calls, audience }).2
    rw [callListener_of_silent haudience.silent, callListener_of_silent haudience.silent']
    exact ⟨calls, _, rfl, hmade, haudience.hear n e⟩
  | forwarder p =>
    show (forward p e b).2.Alike (forward p e { b with calls, audience }).2
    have hinbox : ({ b with calls, audience } : Bus).inbox p = b.inbox p := rfl
    unfold forward
    rw [hinbox]
    split
    · exact ⟨calls, audience, rfl, hmade, haudience⟩
    · exact ⟨calls, audience, rfl, hmade, haudience⟩

theorem deliverTo (h : b.Alike b') (e : Envelope) (whos : List SubscriberId) :
    (deliverTo Bus.receive e whos b).2.Alike (InstrumentBus.deliverTo Bus.receive e whos b').2 := by
  induction whos generalizing b b' with
  | nil => exact h
  | cons who others ih => exact ih (h.receive who e)

theorem deliverEach (h : b.Alike b') (who : SubscriberId) (es : List Envelope) :
    (deliverEach Bus.receive who es b).Alike
      (InstrumentBus.deliverEach Bus.receive who es b') := by
  induction es generalizing b b' with
  | nil => exact h
  | cons e es ih => exact ih (h.receive who e)

theorem deliver (h : b.Alike b') (node : NodeId) (e : Envelope) (k : DeliveryClass) :
    (b.deliver node e k).2.Alike (b'.deliver node e k).2 := by
  unfold Bus.deliver Tree.deliver
  rw [h.tree_eq]
  exact h.deliverTo e _

/-- A bus that tells listeners of a return code stays alike. -/
theorem deliverTo_code (h : b.Alike b') (he : e.topic.suffix = some .returnCode)
    {whos : List SubscriberId} (hwhos : ∀ who ∈ whos, who.isClient = true) :
    b.Alike (InstrumentBus.deliverTo Bus.receive e whos b').2 := by
  induction whos generalizing b' with
  | nil => exact h
  | cons who others ih =>
    obtain ⟨hwho, hothers⟩ := List.forall_mem_cons.mp hwhos
    refine ih ?_ hothers
    cases who with
    | client n =>
      show b.Alike (callListener n e b').2
      rw [callListener_of_silent h.symm.silent]
      exact h.trans ⟨b'.calls, _, rfl, rfl, h.symm.silent.alike_hear n he⟩
    | forwarder p => cases hwho

end Alike

/-! ## Return codes -/

/-- The bus on which a topic is known. -/
def makeKnown (b : Bus) (t : Topic) : Bus :=
  { b with tree := (b.tree.makeLevels Tree.root t.segments).2 }

theorem nodeOf_eq (b : Bus) (t : Topic) :
    b.nodeOf t = .ok ((b.tree.makeLevels Tree.root t.segments).1, b.makeKnown t) := by
  have hsegments := t.segments_withoutSuffix
  unfold nodeOf Tree.findOrCreate makeKnown
  rw [t.parse_path]
  simp only [Except.map, hsegments]

theorem makeKnown_of_descend {t : Topic} (h : b.tree.descend Tree.root t.segments = some node) :
    b.makeKnown t = b := by
  unfold makeKnown
  rw [Tree.makeLevels_of_descend h]

theorem contents_makeKnown (h : b.tree.Rooted) (t : Topic) :
    (b.makeKnown t).tree.contents = b.tree.contents.reach t.segments := (h.made t.segments).contents_eq

/-- On a topic that was just made known, a value is checked by the metadata that were there before, -/
theorem validate_makeKnown (h : b.tree.Rooted) (e : Envelope) :
    (b.makeKnown e.topic).validate (b.tree.makeLevels Tree.root e.topic.segments).1 e =
      e.validated (b.tree.contents.metadata e.topic.segments) := by
  have hvalidate := validate_eq (b := b.makeKnown e.topic) (h.made e.topic.segments).descend_eq e
  rw [contents_makeKnown h] at hvalidate
  exact hvalidate

/-- and compared with the value. -/
theorem isDuplicate_makeKnown (h : b.tree.Rooted) (t : Topic) (e : Envelope) :
    (b.makeKnown t).isDuplicate (b.tree.makeLevels Tree.root t.segments).1 e =
      e.repeats (b.tree.contents.value t.segments) := by
  have hduplicate := isDuplicate_eq (b := b.makeKnown t) (h.made t.segments).descend_eq e
  rw [contents_makeKnown h] at hduplicate
  exact hduplicate

theorem Alike.makeKnown (h : b.Alike b') (t : Topic) : (b.makeKnown t).Alike (b'.makeKnown t) := by
  unfold Bus.makeKnown
  rw [h.tree_eq]
  exact h.setTree _

/-- Of an announced return code nothing is left but that its topic is known. -/
theorem alike_emitReturnCode (h : b.audience.Silent) (hdiscreet : b.tree.Discreet) (t : Topic)
    (code : Int32) : (b.makeKnown t).Alike (b.emitReturnCode t code) := by
  have hmade := hdiscreet.1.made t.segments
  unfold emitReturnCode
  simp only
  rw [nodeOf_eq]
  simp only
  refine Alike.deliverTo_code ?_ ?_ fun who hwho => ?_
  · exact (Alike.refl (b := b.makeKnown t) h).endCalls rfl (CallTable.made_complete ..)
  · rw [envelope_topic, Topic.suffix_withSuffix]
  · exact (hdiscreet.made hmade).isClient_of_mem_recipients hmade.descend_eq hwho

/-- Which code it is makes no difference. -/
theorem Alike.emitReturnCode (h : b.Alike b') (hdiscreet : b.tree.Discreet) (t : Topic)
    (code code' : Int32) : (b.emitReturnCode t code).Alike (b'.emitReturnCode t code') := by
  have hdiscreet' : b'.tree.Discreet := by
    rw [h.tree_eq]
    exact hdiscreet
  exact (alike_emitReturnCode h.silent hdiscreet t code).symm.trans
    ((h.makeKnown t).trans (alike_emitReturnCode h.symm.silent hdiscreet' t code'))

/-- The outcome of a delivery, announced if it is a refusal. -/
def announced (t : Topic) (r : Outcome × Bus) : Outcome × Bus :=
  match r.1 with
  | some s => (some s, r.2.emitReturnCode t s.code)
  | none => (none, r.2)

/-- At a topic that is known, whether a refusal is announced makes no difference either. -/
theorem Alike.announced {r : Outcome × Bus} (h : b.Alike r.2) (hdiscreet : r.2.tree.Discreet)
    {t : Topic} (hnode : r.2.tree.descend Tree.root t.segments = some node) :
    b.Alike (Bus.announced t r).2 := by
  obtain ⟨outcome, b'⟩ := r
  cases outcome with
  | none => exact h
  | some s =>
    have hemit := alike_emitReturnCode h.symm.silent hdiscreet t s.code
    rw [makeKnown_of_descend hnode] at hemit
    simp only [Bus.announced]
    exact h.trans hemit

/-! ## Processing -/

/-- A new value is kept and delivered, and what is answered to it is announced. -/
theorem publishValue_of_new {e' : Envelope} (hvalidated : b.validate node e = .ok e')
    (hnew : ¬ b.isDuplicate node e' = true) :
    b.publishValue node e = Bus.announced e'.topic
      (({ b with tree := b.tree.setRetained node e' } : Bus).deliver node e' .publish) := by
  unfold publishValue Bus.announced
  rcases hdelivered : ({ b with tree := b.tree.setRetained node e' } : Bus).deliver node e' .publish
    with ⟨_ | s, b'⟩ <;>
  simp only [hvalidated, if_neg hnew, hdelivered]

section Publish

variable (h : b.Alike b')
include h

theorem Alike.publishMetadata (node : NodeId) (e : Envelope) :
    (b.publishMetadata node e).2.Alike (b'.publishMetadata node e).2 := by
  rw [publishMetadata_eq, publishMetadata_eq]
  split
  · rw [h.tree_eq]
    exact (h.setTree _).deliver node e .metadata
  · exact h

theorem Alike.publishReturnCode (node : NodeId) (e : Envelope) :
    (b.publishReturnCode node e).2.Alike (b'.publishReturnCode node e).2 := by
  unfold Bus.publishReturnCode
  simp only
  split
  · exact (h.endCalls (CallTable.made_complete ..) (CallTable.made_complete ..)).deliver ..
  · exact h.deliver ..

/-- A value is checked, kept and delivered in the same way, whatever the answers to it are. -/
theorem Alike.publishValue (hdiscreet : b.tree.Discreet)
    (hnode : b.tree.descend Tree.root e.topic.segments = some node) :
    (b.publishValue node e).2.Alike (b'.publishValue node e).2 := by
  have hvalidate : b'.validate node e = b.validate node e := by
    unfold validate
    rw [h.tree_eq]
  have hduplicate : ∀ e', b'.isDuplicate node e' = b.isDuplicate node e' := by
    intro e'
    unfold isDuplicate
    rw [h.tree_eq]
  cases hvalidated : b.validate node e with
  | error s =>
    unfold Bus.publishValue
    rw [hvalidate, hvalidated]
    simp only
    exact h.emitReturnCode hdiscreet e.topic s.code s.code
  | ok e' =>
    by_cases hagain : b.isDuplicate node e' = true
    · unfold Bus.publishValue
      rw [hvalidate, hvalidated]
      simp only [hduplicate, if_pos hagain]
      exact h.emitReturnCode hdiscreet e'.topic 0 0
    · -- the value is kept and delivered on both sides, then each may announce a refusal of its own
      rw [publishValue_of_new hvalidated hagain,
        publishValue_of_new (hvalidate.trans hvalidated) (by rw [hduplicate]; exact hagain), h.tree_eq]
      have hdeliver := (h.setTree (b.tree.setRetained node e')).deliver node e' .publish
      have htree : ∀ b₁ : Bus, (({ b₁ with tree := b.tree.setRetained node e' } : Bus).deliver node e'
          .publish).2.tree = b.tree.setRetained node e' := fun _ => (posted_deliverTo ..).2
      have hkept := hdiscreet.setRetained hnode e'
      have hnode' : (b.tree.setRetained node e').descend Tree.root e'.topic.segments = some node := by
        rw [validate_eq hnode] at hvalidated
        rw [(Envelope.validated_ok hvalidated).1]
        exact Tree.descend_modify hnode fun _ => ⟨rfl, rfl, rfl⟩
      have hleft := hdeliver.symm.announced (by rw [htree]; exact hkept) (by rw [htree]; exact hnode')
      exact hleft.symm.announced (by rw [htree]; exact hkept) (by rw [htree]; exact hnode')

/-- Processing an envelope. -/
theorem Alike.process (hdiscreet : b.tree.Discreet) (e : Envelope) :
    (b.process e).2.Alike (b'.process e).2 := by
  have hmade := hdiscreet.1.made e.topic.segments
  have hknown := h.makeKnown e.topic
  unfold Bus.process
  by_cases hroot : e.topic.path = ""
  · rw [if_pos hroot, if_pos hroot]
    exact h
  · rw [if_neg hroot, if_neg hroot, nodeOf_eq, nodeOf_eq, h.tree_eq]
    simp only
    cases e.topic.suffix with
    | none => exact hknown.publishValue (hdiscreet.made hmade) hmade.descend_eq
    | some suffix =>
      cases suffix with
      | metadataRsp => exact hknown.publishMetadata _ e
      | returnCode => exact hknown.publishReturnCode _ e
      | metadataReq | queryReq | queryRsp => exact hknown.deliver _ e _

/-! ## Deeds -/

theorem Alike.startSubscription (t : Topic) (s : Subscription) :
    (b.startSubscription t s).2.Alike (b'.startSubscription t s).2 := by
  have hknown := h.makeKnown t
  have hannouncements : ∀ tree, ({ b'.makeKnown t with tree } : Bus).deviceAnnouncements =
      ({ b.makeKnown t with tree } : Bus).deviceAnnouncements := by
    obtain ⟨calls, audience, rfl, -⟩ := h
    exact fun _ => rfl
  unfold Bus.startSubscription
  rw [nodeOf_eq, nodeOf_eq, h.tree_eq]
  simp only
  rw [hknown.tree_eq]
  generalize (b.makeKnown t).tree.addSubscription _ s = tree
  rw [hannouncements]
  by_cases hretain : s.flags.retain
  · rw [if_pos hretain, if_pos hretain]
    have htold := (hknown.setTree tree).deliverEach s.subscriber
      (if hearsDevices t then ({ b.makeKnown t with tree } : Bus).deviceAnnouncements else [])
    simp only
    unfold Tree.replay
    rw [htold.tree_eq]
    exact htold.deliverEach ..
  · rw [if_neg hretain, if_neg hretain]
    exact hknown.setTree tree

theorem Alike.endSubscription (t : Topic) (who : SubscriberId) :
    (b.endSubscription t who).2.Alike (b'.endSubscription t who).2 := by
  unfold Bus.endSubscription
  rw [h.tree_eq]
  split
  · exact h
  · exact h.setTree _

/-- Deeds leave two buses alike. -/
theorem Alike.perform (hdiscreet : b.tree.Discreet) (deed : Deed) :
    (b.perform deed).Alike (b'.perform deed) := by
  cases deed with
  | publish e => exact h.process hdiscreet e
  | announce t code => exact h.emitReturnCode hdiscreet t code code
  | enlist t s => exact h.startSubscription t s
  | dismiss t who => exact h.endSubscription t who
  | dismissAll who =>
    unfold Bus.perform
    rw [h.tree_eq]
    exact h.setTree _
  | clear =>
    unfold Bus.perform
    rw [h.tree_eq]
    exact h.setTree _

end Publish

theorem Alike.performAll {deeds : List Deed} (h : b.Alike b') (hdiscreet : b.tree.Discreet)
    (hdeeds : ∀ deed ∈ deeds, deed.Discreet) : (b.performAll deeds).Alike (b'.performAll deeds) := by
  induction deeds generalizing b b' with
  | nil => exact h
  | cons deed deeds ih =>
    obtain ⟨hdeed, hdeeds⟩ := List.forall_mem_cons.mp hdeeds
    exact ih (h.perform hdiscreet deed) (hdiscreet.perform hdeed) hdeeds

end Bus

end InstrumentBus
