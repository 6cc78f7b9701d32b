import Mathlib
import InstrumentBus.Proofs.Dispatch.Quiet
import InstrumentBus.Proofs.Envelope.Values

/-!
# Who is told what

What listeners have heard and what lies in the inboxes of devices changes by delivery alone. A
`Post` is an envelope and who it is given to, and `Bus.Posted posts` is a frame with a log: one bus
comes from another by giving everyone what `posts` has for them, in this order. `Posted.trans` puts
the logs of two steps behind each other; `posted_deliverTo` and `posted_deliverEach` say what
delivery adds.

Listeners make requests while they are called. These go into the queue of commands, so the tree is
what it was (`posted_receive`), and they speak of listeners only (`Envelope.fromClient`).
-/

namespace InstrumentBus

/-! ## Posts -/

/-- An envelope and who it is given to. -/
abbrev Post := SubscriberId × Envelope

/-- What one subscriber is given. -/
def postsTo (who : SubscriberId) (posts : List Post) : List Envelope :=
  posts.filterMap fun x => if x.1 = who then some x.2 else none

section PostsTo

variable {who who' : SubscriberId} {e : Envelope} {posts posts' : List Post}

@[simp] theorem postsTo_nil (who : SubscriberId) : postsTo who [] = [] := rfl

@[simp] theorem postsTo_append (who : SubscriberId) (posts posts' : List Post) :
    postsTo who (posts ++ posts') = postsTo who posts ++ postsTo who posts' :=
  List.filterMap_append

theorem postsTo_cons_self (who : SubscriberId) (e : Envelope) (posts : List Post) :
    postsTo who ((who, e) :: posts) = e :: postsTo who posts := by simp [postsTo]

theorem postsTo_cons_of_ne (h : who' ≠ who) (e : Envelope) (posts : List Post) :
    postsTo who ((who', e) :: posts) = postsTo who posts := by simp [postsTo, h]

theorem mem_postsTo : e ∈ postsTo who posts ↔ (who, e) ∈ posts := by
  unfold postsTo
  rw [List.mem_filterMap]
  constructor
  · rintro ⟨⟨who', e'⟩, hmem, heq⟩
    split at heq
    · rename_i hwho
      cases heq
      cases hwho
      exact hmem
    · cases heq
  · intro hmem
    exact ⟨(who, e), hmem, if_pos rfl⟩

/-- One envelope for several subscribers comes to each as often as it is named. -/
theorem postsTo_map (who : SubscriberId) (e : Envelope) (whos : List SubscriberId) :
    postsTo who (whos.map (·, e)) = List.replicate (whos.count who) e := by
  induction whos with
  | nil => rfl
  | cons who' whos ih =>
    rw [List.map_cons]
    by_cases h : who' = who
    · rw [h, postsTo_cons_self, ih, List.count_cons_self, List.replicate_succ]
    · rw [postsTo_cons_of_ne h, ih, List.count_cons_of_ne h]

/-- Several envelopes for one subscriber come to it in their order. -/
theorem postsTo_map_self (who : SubscriberId) (es : List Envelope) :
    postsTo who (es.map (who, ·)) = es := by
  induction es with
  | nil => rfl
  | cons e es ih => rw [List.map_cons, postsTo_cons_self, ih]

theorem postsTo_eq_nil (h : ∀ x ∈ posts, x.1 ≠ who) : postsTo who posts = [] := by
  rw [List.eq_nil_iff_forall_not_mem]
  intro e he
  exact h _ (mem_postsTo.mp he) rfl

end PostsTo

/-- What a listener has heard, the latest first. -/
def Audience.heardBy (a : Audience) (n : Nat) : List Envelope :=
  a.record.filterMap fun
    | .heard m e => if m = n then some e else none
    | .answered _ _ _ => none

/-- The subscriber is a listener. -/
def SubscriberId.isClient : SubscriberId → Bool
  | .client _ => true
  | .forwarder _ => false

/-- A command of a client speaks of its listeners only. -/
def Envelope.fromClient (e : Envelope) : Bool :=
  match e.control with
  | some (.subscribe _ s) => s.subscriber.isClient
  | some (.unsubscribe _ who) | some (.unsubscribeAll who) => who.isClient
  | _ => true

/-- The requests of clients become commands of clients. -/
theorem Bus.envelopeOf_fromClient {b : Bus} {r : Request} {e : Envelope} {timeout : Nat}
    (h : b.envelopeOf r = .ok (e, timeout)) : e.fromClient := by
  cases r with
  | publish p time =>
    obtain ⟨e', he', heq⟩ := map_eq_ok_iff.mp h
    obtain ⟨t, -, rfl⟩ := map_eq_ok_iff.mp he'
    cases heq
    simp [Envelope.fromClient, envelope]
  | query topic time | queryInto topic capacity time =>
    obtain ⟨e', he', heq⟩ := map_eq_ok_iff.mp h
    obtain ⟨t, -, rfl⟩ := map_eq_ok_iff.mp he'
    cases heq
    simp [Envelope.fromClient, commandEnvelope]
  | subscribe topic listener flags time | unsubscribe topic listener time =>
    obtain ⟨t, -, heq⟩ := map_eq_ok_iff.mp h
    cases heq
    simp [Envelope.fromClient, commandEnvelope, Audience.identity, SubscriberId.isClient]
  | unsubscribeAll listener time =>
    cases h
    simp [Envelope.fromClient, Audience.identity, SubscriberId.isClient]
  | shutdown => cases h

namespace Bus

/-! ## A frame with a log -/

/-- The second bus comes from the first by giving everyone what is posted. -/
structure Posted (posts : List Post) (b b' : Bus) : Prop where
  config_eq : b'.config = b.config
  devices_eq : b'.devices = b.devices
  backend_eq : b'.backend = b.backend
  commands_eq : ∃ es, (∀ e ∈ es, e.fromClient) ∧ b'.commands.items = b.commands.items ++ es
  listeners_eq : b'.audience.listeners.length = b.audience.listeners.length
  heardBy_eq : ∀ n < b.audience.listeners.length,
    b'.audience.heardBy n = (postsTo (.client n) posts).reverse ++ b.audience.heardBy n
  length_eq : b'.inboxes.length = b.inboxes.length
  /-- A closed inbox takes nothing; into an open one go copies. -/
  inbox_eq : ∀ p < b.inboxes.length, b'.inbox p =
    if (b.inbox p).closed then b.inbox p
    else { b.inbox p with
      items := (b.inbox p).items ++ (postsTo (.forwarder p) posts).map Envelope.clone }

variable {b b' b'' : Bus} {e : Envelope} {posts posts' : List Post}

/-- Nobody is told anything by what leaves listeners and queues alone. -/
theorem posted_nil (hconfig : b'.config = b.config) (hdevices : b'.devices = b.devices)
    (hbackend : b'.backend = b.backend) (hcommands : b'.commands = b.commands)
    (haudience : b'.audience = b.audience) (hinboxes : b'.inboxes = b.inboxes) :
    b.Posted [] b' := by
  refine ⟨hconfig, hdevices, hbackend, ⟨[], List.forall_mem_nil _, ?_⟩, ?_, ?_, ?_, ?_⟩
  · rw [hcommands, List.append_nil]
  · rw [haudience]
  · intro n _
    rw [haudience]
    rfl
  · rw [hinboxes]
  · intro p _
    unfold inbox
    rw [hinboxes]
    simp

theorem Posted.refl (b : Bus) : b.Posted [] b := posted_nil rfl rfl rfl rfl rfl rfl

theorem Posted.trans (h : b.Posted posts b') (h' : b'.Posted posts' b'') :
    b.Posted (posts ++ posts') b'' where
  config_eq := h'.config_eq.trans h.config_eq
  devices_eq := h'.devices_eq.trans h.devices_eq
  backend_eq := h'.backend_eq.trans h.backend_eq
  commands_eq := by
    obtain ⟨es, hes, hcommands⟩ := h.commands_eq
    obtain ⟨es', hes', hcommands'⟩ := h'.commands_eq
    refine ⟨es ++ es', List.forall_mem_append.mpr ⟨hes, hes'⟩, ?_⟩
    rw [hcommands', hcommands, List.append_assoc]
  listeners_eq := h'.listeners_eq.trans h.listeners_eq
  heardBy_eq n hn := by
    rw [h'.heardBy_eq n (by rw [h.listeners_eq]; exact hn), h.heardBy_eq n hn, postsTo_append,
      List.reverse_append, List.append_assoc]
  length_eq := h'.length_eq.trans h.length_eq
  inbox_eq p hp := by
    have hfirst := h.inbox_eq p hp
    rw [h'.inbox_eq p (by rw [h.length_eq]; exact hp), hfirst]
    by_cases hclosed : (b.inbox p).closed
    · simp only [if_pos hclosed]
    · simp only [if_neg hclosed, postsTo_append, List.map_append, List.append_assoc]

/-- A step that tells nobody anything may come first, -/
theorem Posted.after (h : b.Posted [] b') (h' : b'.Posted posts b'') : b.Posted posts b'' := h.trans h'

/-- or last. -/
theorem Posted.before (h : b.Posted posts b') (h' : b'.Posted [] b'') : b.Posted posts b'' := by
  have hboth := h.trans h'
  rw [List.append_nil] at hboth
  exact hboth

theorem posted_tree (b : Bus) (tree : Tree) : b.Posted [] { b with tree } :=
  posted_nil rfl rfl rfl rfl rfl rfl

theorem posted_calls (b : Bus) (calls : CallTable) : b.Posted [] { b with calls } :=
  posted_nil rfl rfl rfl rfl rfl rfl

/-! ## Requests of listeners -/

theorem posted_pushCommand (h : b.pushCommand? e = some b') (he : e.fromClient) :
    b.Posted [] b' ∧ b'.tree = b.tree := by
  obtain ⟨-, rfl⟩ := pushCommand?_eq_some h
  have hsilent : b.Posted [] { b with signal := b.signal.notify } :=
    posted_nil rfl rfl rfl rfl rfl rfl
  have hcommands :
      ∃ es, (∀ e ∈ es, e.fromClient) ∧ b.commands.items ++ [e] = b.commands.items ++ es := by
    refine ⟨[e], ?_, rfl⟩
    intro e' he'
    rw [List.mem_singleton.mp he']
    exact he
  exact ⟨{ hsilent with commands_eq := hcommands }, rfl⟩

theorem posted_submit_inside (b : Bus) (he : e.fromClient) (timeout : Nat) :
    b.Posted [] (b.submit e timeout true).2 ∧ (b.submit e timeout true).2.tree = b.tree := by
  have hself : b.Posted [] b ∧ b.tree = b.tree := ⟨Posted.refl b, rfl⟩
  unfold submit
  split
  · exact hself
  · split
    · exact hself
    · split
      · cases hpush : b.pushCommand? e with
        | none => exact hself
        | some b' => exact posted_pushCommand hpush he
      · exact hself

theorem posted_requestInside (b : Bus) (r : Request) :
    b.Posted [] (b.requestInside r).2 ∧ (b.requestInside r).2.tree = b.tree := by
  unfold requestInside
  split
  · exact ⟨Posted.refl b, rfl⟩
  · rename_i e timeout hr
    exact posted_submit_inside b (envelopeOf_fromClient hr) timeout

theorem posted_requestsInside (listener : Nat) (rs : List Request) (index : Nat) (b : Bus) :
    b.Posted [] (requestsInside listener index rs b) ∧
      (requestsInside listener index rs b).tree = b.tree := by
  induction rs generalizing index b with
  | nil => exact ⟨Posted.refl b, rfl⟩
  | cons r rs ih =>
    unfold requestsInside
    obtain ⟨hrequest, htree⟩ := posted_requestInside b r
    generalize b.requestInside r = answered at hrequest htree ⊢
    obtain ⟨answer, b'⟩ := answered
    -- the note of the answer is nothing that the listener hears
    have hnote : b'.Posted []
        { b' with audience := b'.audience.note (.answered listener index answer) } :=
      { Posted.refl b' with heardBy_eq := fun _ _ => rfl }
    obtain ⟨hrest, htree'⟩ :=
      ih (index + 1) { b' with audience := b'.audience.note (.answered listener index answer) }
    exact ⟨(hrequest.after hnote).after hrest, htree'.trans htree⟩

/-! ## Delivery -/

theorem inbox_setInbox_of_ne (b : Bus) {p p' : InboxId} (q : Queue) (h : p ≠ p') :
    (b.setInbox p q).inbox p' = b.inbox p' := by
  unfold inbox setInbox
  rw [List.getElem?_set_ne h]

theorem inbox_setInbox (b : Bus) {p : InboxId} (q : Queue) (hp : p < b.inboxes.length) (p' : InboxId) :
    (b.setInbox p q).inbox p' = if p = p' then q else b.inbox p' := by
  by_cases h : p = p'
  · subst h
    unfold inbox setInbox
    rw [if_pos rfl, List.getElem?_set_self hp]
    rfl
  · rw [if_neg h, inbox_setInbox_of_ne b q h]

theorem setInbox_of_length_le (b : Bus) {p : InboxId} (q : Queue) (hp : b.inboxes.length ≤ p) :
    b.setInbox p q = b := by
  unfold setInbox
  rw [List.set_eq_of_length_le hp]

/-- Telling a listener that is there of an envelope adds to what it has heard. -/
theorem posted_hear (b : Bus) (n : Nat) (e : Envelope) :
    b.Posted [(.client n, e)] { b with audience := (b.audience.hear n e).2 } := by
  have hother : ∀ p, postsTo (.forwarder p) [(.client n, e)] = [] := by
    intro p
    have hne : SubscriberId.client n ≠ .forwarder p := nofun
    rw [postsTo_cons_of_ne hne, postsTo_nil]
  unfold Audience.hear
  cases hn : b.audience.listeners[n]? with
  | none =>
    have hle : b.audience.listeners.length ≤ n := List.getElem?_eq_none_iff.mp hn
    refine { Posted.refl b with heardBy_eq := ?_, inbox_eq := ?_ }
    · intro m hm
      have hne : SubscriberId.client n ≠ .client m := by
        intro heq
        cases heq
        exact absurd hm (Nat.not_lt.mpr hle)
      rw [postsTo_cons_of_ne hne]
      rfl
    · intro p hp
      rw [hother p]
      exact (Posted.refl b).inbox_eq p hp
  | some l =>
    refine { Posted.refl b with listeners_eq := ?_, heardBy_eq := ?_, inbox_eq := ?_ }
    · exact List.length_set
    · intro m _
      show Audience.heardBy ⟨_, .heard n e :: b.audience.record⟩ m = _
      unfold Audience.heardBy
      by_cases h : n = m
      · subst h
        rw [postsTo_cons_self]
        simp
      · have hne : SubscriberId.client n ≠ .client m := fun heq => h (by cases heq; rfl)
        rw [postsTo_cons_of_ne hne]
        simp [h]
    · intro p hp
      rw [hother p]
      exact (Posted.refl b).inbox_eq p hp

theorem posted_forward (b : Bus) (p : InboxId) (e : Envelope) :
    b.Posted [(.forwarder p, e)] (forward p e b).2 ∧ (forward p e b).2.tree = b.tree := by
  have hheard : ∀ n < b.audience.listeners.length, b.audience.heardBy n =
      (postsTo (.client n) [(.forwarder p, e)]).reverse ++ b.audience.heardBy n := by
    intro n _
    have hne : SubscriberId.forwarder p ≠ .client n := nofun
    rw [postsTo_cons_of_ne hne]
    rfl
  unfold forward Queue.push?
  by_cases hclosed : (b.inbox p).closed
  · rw [if_pos hclosed]
    refine ⟨{ Posted.refl b with heardBy_eq := hheard, inbox_eq := ?_ }, rfl⟩
    intro p' _
    by_cases h : p = p'
    · rw [← h, if_pos hclosed]
    · have hne : SubscriberId.forwarder p ≠ .forwarder p' := fun heq => h (by cases heq; rfl)
      rw [postsTo_cons_of_ne hne]
      simp
  · rw [if_neg hclosed]
    refine ⟨{ Posted.refl b with heardBy_eq := hheard, length_eq := ?_, inbox_eq := ?_ }, rfl⟩
    · exact List.length_set
    · intro p' hp'
      by_cases hp : p < b.inboxes.length
      · show (b.setInbox p _).inbox p' = _
        rw [inbox_setInbox b _ hp]
        by_cases h : p = p'
        · rw [if_pos h, ← h, if_neg hclosed, postsTo_cons_self]
          rfl
        · have hne : SubscriberId.forwarder p ≠ .forwarder p' := fun heq => h (by cases heq; rfl)
          rw [if_neg h, postsTo_cons_of_ne hne]
          simp
      · have hle := Nat.not_lt.mp hp
        have hne : SubscriberId.forwarder p ≠ .forwarder p' := by
          intro heq
          cases heq
          exact hp hp'
        show (b.setInbox p _).inbox p' = _
        rw [setInbox_of_length_le b _ hle, postsTo_cons_of_ne hne]
        simp

theorem posted_receive (b : Bus) (who : SubscriberId) (e : Envelope) :
    b.Posted [(who, e)] (receive who e b).2 ∧ (receive who e b).2.tree = b.tree := by
  cases who with
  | client n =>
    obtain ⟨hrequests, htree⟩ := posted_requestsInside n (b.audience.hear n e).1.requests 0
      { b with audience := (b.audience.hear n e).2 }
    exact ⟨(posted_hear b n e).before hrequests, htree⟩
  | forwarder p => exact posted_forward b p e

theorem posted_deliverTo (e : Envelope) (whos : List SubscriberId) (b : Bus) :
    b.Posted (whos.map (·, e)) (deliverTo receive e whos b).2 ∧
      (deliverTo receive e whos b).2.tree = b.tree := by
  induction whos generalizing b with
  | nil => exact ⟨Posted.refl b, rfl⟩
  | cons who others ih =>
    obtain ⟨hfirst, htree⟩ := posted_receive b who e
    obtain ⟨hothers, htree'⟩ := ih (receive who e b).2
    exact ⟨hfirst.trans hothers, htree'.trans htree⟩

theorem posted_deliverEach (who : SubscriberId) (es : List Envelope) (b : Bus) :
    b.Posted (es.map (who, ·)) (deliverEach receive who es b) ∧
      (deliverEach receive who es b).tree = b.tree := by
  induction es generalizing b with
  | nil => exact ⟨Posted.refl b, rfl⟩
  | cons e es ih =>
    obtain ⟨hfirst, htree⟩ := posted_receive b who e
    obtain ⟨hothers, htree'⟩ := ih (receive who e b).2
    exact ⟨hfirst.trans hothers, htree'.trans htree⟩

end Bus
end InstrumentBus
