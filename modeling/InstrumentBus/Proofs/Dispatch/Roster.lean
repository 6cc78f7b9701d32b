import Mathlib
import InstrumentBus.Proofs.Dispatch.History

/-!
# Who is told of an envelope

A `Roster` lists the subscriptions in the order in which they were started, each with its topic.
`Roster.after` says what each deed of the dispatcher does to it: a subscription is added at the end,
and ending subscriptions takes entries out, wherever they are.

The roster of the history of a run says who listens at which path (`Contents.Enrolled`), so it says
who is told of an envelope and in which order: `run_roster`.
-/

namespace InstrumentBus

/-! ## Telling one after the other -/

/-- What several subscribers answer to an envelope, each told of it after the one before. -/
def answersOf {σ : Type} (receive : Receive σ) (e : Envelope) :
    List SubscriberId → σ → List (Option StatusCode) × σ
  | [], s => ([], s)
  | who :: others, s =>
    let (error, s) := receive who e s
    let (later, s) := answersOf receive e others s
    (error :: later, s)

section AnswersOf

variable {σ : Type} (receive : Receive σ) (e : Envelope) (whos : List SubscriberId) (s : σ)

/-- All of them answer, -/
theorem length_answersOf : (answersOf receive e whos s).1.length = whos.length := by
  induction whos generalizing s with
  | nil => rfl
  | cons who others ih => exact congrArg Nat.succ (ih (receive who e s).2)

/-- and the first error among the answers is the result of a delivery. -/
theorem deliverTo_eq :
    deliverTo receive e whos s =
      ((answersOf receive e whos s).1.findSome? id, (answersOf receive e whos s).2) := by
  induction whos generalizing s with
  | nil => rfl
  | cons who others ih =>
    have hothers := ih (receive who e s).2
    unfold deliverTo answersOf
    simp only [hothers]
    cases (receive who e s).1 <;> rfl

end AnswersOf

/-! ## Entries -/

/-- A subscription and the topic that it is for. -/
structure Entry where
  topic : Topic
  subscription : Subscription

namespace Entry

def who (n : Entry) : SubscriberId := n.subscription.subscriber

/-- How many levels the path has. -/
def depth (n : Entry) : Nat := n.topic.segments.length

/-- The entry is for envelopes of a class at a topic, unless its subscriber has sent them. -/
def takes (n : Entry) (t : Topic) (k : DeliveryClass) (origin : Option SubscriberId) : Bool :=
  t.startsWith n.topic && n.subscription.accepts k && some n.who != origin

end Entry

/-- The subscriptions in the order in which they were started. -/
abbrev Roster := List Entry

namespace Roster

/-- What each deed does. -/
def after (L : Roster) : Deed → Roster
  | .enlist t s => L ++ [⟨t, s⟩]
  | .dismiss t who => L.filter fun n => ¬ (n.topic.path = t.path ∧ n.who = who)
  | .dismissAll who => L.filter fun n => n.who ≠ who
  | .clear => []
  | .publish _ | .announce _ _ => L

/-- The entries that an envelope of a class at a topic goes to: those for longer paths first, those
for one path in the order in which they were started. -/
def invited (L : Roster) (t : Topic) (k : DeliveryClass) (origin : Option SubscriberId) :
    List Entry :=
  t.segments.inits.reverse.flatMap fun q =>
    (L.filter (·.takes t k origin)).filter fun n => n.topic.segments = q

end Roster

/-! ## The order of those who are told -/

/-- Sorting by keys loses nothing and doubles nothing. -/
theorem perm_flatMap_filter {α κ : Type} [DecidableEq κ] (key : α → κ) {ks : List κ} (hks : ks.Nodup)
    {l : List α} (hl : ∀ a ∈ l, key a ∈ ks) :
    (ks.flatMap fun q => l.filter fun a => key a = q).Perm l := by
  induction l with
  | nil => simp
  | cons a l ih =>
    obtain ⟨ha, hl⟩ := List.forall_mem_cons.mp hl
    obtain ⟨before, later, rfl⟩ := List.append_of_mem ha
    have hnodup := List.nodup_middle.mp hks
    have hother : ∀ q ∈ before ++ later, ((a :: l).filter fun a => key a = q) =
        l.filter fun a => key a = q := by
      intro q hq
      refine List.filter_cons_of_neg ?_
      have hne : key a ≠ q := fun heq => (List.nodup_cons.mp hnodup).1 (heq ▸ hq)
      simpa using hne
    obtain ⟨hbefore, hlater⟩ := List.forall_mem_append.mp hother
    have hself : ((a :: l).filter fun x => key x = key a) = a :: l.filter fun x => key x = key a :=
      List.filter_cons_of_pos (by simp)
    have hrest := ih hl
    rw [List.flatMap_append, List.flatMap_cons] at hrest ⊢
    rw [List.flatMap_congr hbefore, List.flatMap_congr hlater, hself]
    exact List.perm_middle.trans (hrest.cons a)

/-- Sorting by keys leaves those with one key in their order. -/
theorem filter_flatMap_filter {α κ : Type} [DecidableEq κ] (key : α → κ) {ks : List κ}
    (hks : ks.Nodup) {l : List α} (hl : ∀ a ∈ l, key a ∈ ks) (s : κ) :
    ((ks.flatMap fun q => l.filter fun a => key a = q).filter fun a => key a = s) =
      l.filter fun a => key a = s := by
  have hother : ∀ q, q ≠ s → (l.filter fun a => key a = q).filter (fun a => key a = s) = [] := by
    intro q hne
    refine List.filter_eq_nil_iff.mpr fun a ha => ?_
    have hq := of_decide_eq_true (List.mem_filter.mp ha).2
    simpa [hq] using hne
  have hothers : ∀ ks : List κ, s ∉ ks →
      (ks.flatMap fun q => (l.filter fun a => key a = q).filter fun a => key a = s) = [] := by
    intro ks hs
    exact List.flatMap_eq_nil_iff.mpr fun q hq => hother q fun heq => hs (heq ▸ hq)
  rw [List.filter_flatMap]
  by_cases hs : s ∈ ks
  · obtain ⟨before, later, rfl⟩ := List.append_of_mem hs
    obtain ⟨hbefore, hlater⟩ := not_or.mp
      (List.mem_append.not.mp (List.nodup_cons.mp (List.nodup_middle.mp hks)).1)
    rw [List.flatMap_append, List.flatMap_cons, hothers _ hbefore, hothers _ hlater,
      List.filter_filter]
    simp
  · rw [hothers _ hs, eq_comm]
    refine List.filter_eq_nil_iff.mpr fun a ha hkey => ?_
    exact hs (of_decide_eq_true hkey ▸ hl a ha)

namespace Roster

/-- The beginnings of a path differ in length, the longest comes last. -/
theorem pairwise_inits (q : List String) : q.inits.Pairwise fun q q' => q.length < q'.length := by
  induction q with
  | nil => exact List.pairwise_singleton _ _
  | cons name q ih =>
    rw [List.inits_cons]
    refine List.pairwise_cons.mpr ⟨?_, List.pairwise_map.mpr ?_⟩
    · intro q' hq'
      obtain ⟨q'', -, rfl⟩ := List.mem_map.mp hq'
      exact Nat.succ_pos _
    · exact ih.imp Nat.succ_lt_succ

theorem nodup_inits (q : List String) : q.inits.Nodup :=
  (pairwise_inits q).imp fun hlt heq => Nat.ne_of_lt hlt (congrArg List.length heq)

section Invited

variable (L : Roster) (t : Topic) (k : DeliveryClass) (origin : Option SubscriberId)

theorem segments_mem_inits {n : Entry} (hn : n ∈ L.filter (·.takes t k origin)) :
    n.topic.segments ∈ t.segments.inits.reverse := by
  have htakes := (List.mem_filter.mp hn).2
  unfold Entry.takes at htakes
  rw [Bool.and_eq_true, Bool.and_eq_true] at htakes
  rw [List.mem_reverse, List.mem_inits, ← Topic.startsWith_iff]
  exact htakes.1.1

/-- Exactly those entries are told that are for the envelope, each once. -/
theorem invited_perm : (L.invited t k origin).Perm (L.filter (·.takes t k origin)) :=
  perm_flatMap_filter (fun n : Entry => n.topic.segments) (List.nodup_reverse.mpr (nodup_inits _))
    fun _ hn => segments_mem_inits L t k origin hn

/-- Longer paths come first. -/
theorem pairwise_invited : (L.invited t k origin).Pairwise fun n n' => n'.depth ≤ n.depth := by
  have hdepth : ∀ q, ∀ n ∈ (L.filter (·.takes t k origin)).filter (·.topic.segments = q),
      n.depth = q.length := by
    intro q n hn
    have hsegments := (List.mem_filter.mp hn).2
    exact congrArg List.length (of_decide_eq_true hsegments)
  unfold invited
  refine List.pairwise_flatMap.mpr ⟨?_, ?_⟩
  · -- at one path all have the same length
    intro q _
    refine List.pairwise_of_forall_mem_list fun n hn n' hn' => ?_
    rw [hdepth q n hn, hdepth q n' hn']
  · refine List.pairwise_reverse.mpr ((pairwise_inits _).imp fun {q q'} hlt n hn n' hn' => ?_)
    rw [hdepth q' n hn, hdepth q n' hn']
    exact Nat.le_of_lt hlt

/-- At one path the order is that of the roster. -/
theorem filter_invited (above : Topic) :
    (L.invited t k origin).filter (·.topic.path = above.path) =
      (L.filter (·.takes t k origin)).filter (·.topic.path = above.path) := by
  simp only [Topic.path_eq_iff]
  exact filter_flatMap_filter (fun n : Entry => n.topic.segments)
    (List.nodup_reverse.mpr (nodup_inits _)) (fun _ hn => segments_mem_inits L t k origin hn) _

end Invited

/-- The roster that deeds make of an empty one. -/
def of (deeds : List Deed) : Roster := deeds.foldl after []

theorem of_append (deeds deeds' : List Deed) : of (deeds ++ deeds') = deeds'.foldl after (of deeds) :=
  List.foldl_append

/-- All else is as if the subscriber had never been there, until it comes again. -/
theorem foldl_after_filter {who : SubscriberId} {deeds : List Deed}
    (hdeeds : ∀ t flags, .enlist t ⟨who, flags⟩ ∉ deeds) (L : Roster) :
    deeds.foldl after (L.filter (·.who ≠ who)) = (deeds.foldl after L).filter (·.who ≠ who) := by
  induction deeds generalizing L with
  | nil => rfl
  | cons deed deeds ih =>
    have hdeed : after (L.filter (·.who ≠ who)) deed = (L.after deed).filter (·.who ≠ who) := by
      cases deed with
      | publish e | announce t code => rfl
      | enlist t s =>
        have hne : s.subscriber ≠ who := by
          intro heq
          refine hdeeds t s.flags ?_
          rw [← heq]
          exact List.mem_cons_self
        have hkept : [(⟨t, s⟩ : Entry)].filter (·.who ≠ who) = [⟨t, s⟩] :=
          List.filter_eq_self.mpr fun n hn => by
            rw [List.mem_singleton.mp hn]
            exact decide_eq_true hne
        simp only [after, List.filter_append]
        rw [hkept]
      | dismiss t who' | dismissAll who' =>
        simp only [after, List.filter_filter]
        exact List.filter_congr fun n _ => Bool.and_comm ..
      | clear => rfl
    rw [List.foldl_cons, List.foldl_cons, hdeed]
    exact ih (fun t flags hmem => hdeeds t flags (List.mem_cons_of_mem deed hmem)) _

/-- Ending all subscriptions of a subscriber takes it out, and nobody else. -/
theorem of_dismissAll {who : SubscriberId} (before : List Deed) {later : List Deed}
    (hlater : ∀ t flags, .enlist t ⟨who, flags⟩ ∉ later) :
    of (before ++ .dismissAll who :: later) = (of (before ++ later)).filter (·.who ≠ who) := by
  rw [of_append, of_append, List.foldl_cons]
  exact foldl_after_filter hlater (of before)

end Roster

/-! ## The roster and the tree -/

/-- The subscriptions at every path are those of the roster. -/
def Contents.Enrolled (c : Contents) (L : Roster) : Prop :=
  ∀ q, c.listeners q = (L.filter (·.topic.segments = q)).map Entry.subscription

namespace Contents.Enrolled

variable {c : Contents} {L : Roster}

theorem nothing : Contents.nothing.Enrolled [] := fun _ => rfl

theorem of_listeners {c' : Contents} (h : c.Enrolled L) (hc : c'.listeners = c.listeners) :
    c'.Enrolled L := by
  intro q
  rw [hc]
  exact h q

/-- Every deed does to the roster what it does to the subscriptions. -/
theorem after (h : c.Enrolled L) (deed : Deed) : (c.after deed).Enrolled (L.after deed) := by
  cases deed with
  | publish e =>
    refine h.of_listeners ?_
    show (c.publish e).listeners = c.listeners
    unfold Contents.publish
    split
    · rw [listeners_store]
      rfl
    · rfl
  | announce t code => exact h.of_listeners rfl
  | enlist t s =>
    intro q
    show Function.update c.listeners t.segments (c.listeners t.segments ++ [s]) q = _
    unfold Roster.after
    rw [List.filter_append, List.map_append]
    by_cases hq : q = t.segments
    · subst hq
      rw [Function.update_self, h]
      simp
    · rw [Function.update_of_ne hq, h]
      simp [Ne.symm hq]
  | dismiss t who =>
    intro q
    show Function.update c.listeners t.segments _ q = _
    unfold Roster.after
    by_cases hq : q = t.segments
    · subst hq
      rw [Function.update_self, h, List.filter_map, List.filter_filter, List.filter_filter]
      congr 1
      refine List.filter_congr fun n _ => ?_
      by_cases hn : n.topic.segments = t.segments <;> simp [Topic.path_eq_iff, Entry.who, hn]
    · rw [Function.update_of_ne hq, h, List.filter_filter]
      congr 1
      refine List.filter_congr fun n _ => ?_
      by_cases hn : n.topic.segments = q
      · simp [Topic.path_eq_iff, hn, hq]
      · simp [hn]
  | dismissAll who =>
    intro q
    show (c.listeners q).filter _ = _
    unfold Roster.after
    rw [h, List.filter_map, List.filter_filter, List.filter_filter]
    congr 1
    refine List.filter_congr fun n _ => ?_
    exact Bool.and_comm ..
  | clear => exact Enrolled.nothing

theorem foldl_after (h : c.Enrolled L) (deeds : List Deed) :
    (deeds.foldl Contents.after c).Enrolled (deeds.foldl Roster.after L) := by
  induction deeds generalizing c L with
  | nil => exact h
  | cons deed deeds ih => exact ih (h.after deed)

/-- Those who receive an envelope are those that the roster says. -/
theorem recipients_eq (h : c.Enrolled L) (t : Topic) (k : DeliveryClass)
    (origin : Option SubscriberId) :
    c.recipients t.segments k origin = (L.invited t k origin).map Entry.who := by
  unfold Contents.recipients Roster.invited
  rw [List.filterMap_flatMap, List.map_flatMap]
  refine List.flatMap_congr fun q hq => ?_
  have habove : q <+: t.segments := (List.mem_inits q _).mp (List.mem_reverse.mp hq)
  rw [h, List.filterMap_map, List.filterMap_filter, ← List.filterMap_eq_map, List.filterMap_filter,
    List.filterMap_filter]
  refine List.filterMap_congr fun n _ => ?_
  by_cases hn : n.topic.segments = q
  · have hstarts : t.startsWith n.topic = true := Topic.startsWith_iff.mpr (hn ▸ habove)
    simp [hn, hstarts, Entry.takes, Entry.who]
  · simp [hn]

/-- A subscriber listens at a path if the roster has an entry of it. -/
theorem exists_mem_listeners (h : c.Enrolled L) (t : Topic) (who : SubscriberId) :
    (∃ s ∈ c.listeners t.segments, s.subscriber = who) ↔
      ∃ n ∈ L, n.topic.path = t.path ∧ n.who = who := by
  rw [h]
  constructor
  · rintro ⟨s, hs, hwho⟩
    obtain ⟨n, hn, rfl⟩ := List.mem_map.mp hs
    obtain ⟨hn, hsegments⟩ := List.mem_filter.mp hn
    exact ⟨n, hn, Topic.path_eq_iff.mpr (of_decide_eq_true hsegments), hwho⟩
  · rintro ⟨n, hn, hpath, hwho⟩
    refine ⟨n.subscription, List.mem_map_of_mem (List.mem_filter.mpr ⟨hn, ?_⟩), hwho⟩
    exact decide_eq_true (Topic.path_eq_iff.mp hpath)

end Contents.Enrolled

/-- Delivery calls those that the roster says, and its result is the first error. -/
theorem Tree.Rooted.deliver_eq {tree : Tree} {L : Roster} {t : Topic} {node : NodeId} (h : tree.Rooted)
    (hnode : tree.descend Tree.root t.segments = some node) (henrolled : tree.contents.Enrolled L)
    {σ : Type} (receive : Receive σ) (s : σ) (e : Envelope) (k : DeliveryClass) :
    let answers := answersOf receive e ((L.invited t k e.origin).map Entry.who) s
    tree.deliver receive node e k s = (answers.1.findSome? id, answers.2) := by
  unfold Tree.deliver
  rw [h.recipients_eq hnode, henrolled.recipients_eq]
  exact deliverTo_eq receive e _ s

/-! ## The roster of a run -/

namespace Bus

variable {b : Bus} {L : Roster} {t : Topic}

theorem endSubscription_outcome (b : Bus) (t : Topic) (who : SubscriberId) :
    (b.endSubscription t who).1 = none ∨ (b.endSubscription t who).1 = some .notFound := by
  unfold endSubscription
  split
  · exact Or.inr rfl
  · simp only
    split
    · exact Or.inr rfl
    · exact Or.inl rfl

/-- A subscriber that does not listen to a topic cannot end its subscriptions to it. -/
theorem localCommand_unsubscribe (h : b.tree.Rooted) (henrolled : b.tree.contents.Enrolled L)
    {e : Envelope} {who : SubscriberId} (he : e.topic = .unsubscribe)
    (hcontrol : e.control = some (.unsubscribe t who)) :
    (b.localCommand e).1.code = StatusCode.notFound.code ↔
      ∀ n ∈ L, ¬ (n.topic.path = t.path ∧ n.who = who) := by
  have hother : Topic.unsubscribe ≠ .subscribe := by decide
  have hcode : (b.localCommand e).1.code = (b.endSubscription t who).1.code := by
    unfold localCommand
    simp only [he, hother, if_false, if_true, hcontrol]
  have houtcome : (b.endSubscription t who).1.code = StatusCode.notFound.code ↔
      (b.endSubscription t who).1 = some .notFound := by
    rcases b.endSubscription_outcome t who with hnone | hsome
    · rw [hnone]
      exact iff_of_false (by decide) nofun
    · rw [hsome]
      exact iff_of_true rfl rfl
  have hthere := henrolled.exists_mem_listeners t who
  rw [hcode, houtcome, (effect_endSubscription h t who).2]
  constructor
  · intro hnone n hn hentry
    obtain ⟨s, hs, hwho⟩ := hthere.mpr ⟨n, hn, hentry⟩
    exact hnone s hs hwho
  · intro hnone s hs hwho
    obtain ⟨n, hn, hentry⟩ := hthere.mp ⟨s, hs, hwho⟩
    exact hnone n hn hentry

end Bus

namespace Dispatcher

/-- Between any two deeds, what the tree keeps is what the history so far makes of nothing. -/
theorem run_contents_within (config : BusConfig) (as : List Action) (n : Nat) :
    ((run config as).plan.bus.performAll ((run config as).plan.deeds.take n)).tree.Rooted ∧
      ((run config as).plan.bus.performAll ((run config as).plan.deeds.take n)).tree.contents =
        (history config as ++ (run config as).plan.deeds.take n).foldl Contents.after .nothing := by
  obtain ⟨hrooted, hcontents⟩ := run_contents config as
  have htree := (untold_plan (run config as)).tree_eq
  rw [← htree] at hrooted hcontents
  obtain ⟨hrooted', hcontents'⟩ :=
    Bus.performAll_contents hrooted ((run config as).plan.deeds.take n)
  refine ⟨hrooted', hcontents'.trans ?_⟩
  rw [hcontents, List.foldl_append]

/-- Let the roster be that of the history at any moment of a run, also between two deeds of one step.
An envelope at a topic is then given to exactly those entries that are for it, each once, longer paths
first and otherwise in the order of the roster. This is so when the envelope itself was stored at its
topic just before, and whoever receives it: all are told, whatever the others answer, and the first
error is the result. A subscriber is told that it has nothing to end at a topic if the roster has no
entry of it there. Once all its subscriptions were ended it is not told of anything, until it starts
another; nobody else is affected. -/
theorem run_roster (config : BusConfig) (as : List Action) (n : Nat) (t : Topic) :
    let d := run config as
    let b := d.plan.bus.performAll (d.plan.deeds.take n)
    let deeds := history config as ++ d.plan.deeds.take n
    let L := Roster.of deeds
    (∃ node tree, b.nodeOf t = .ok (node, { b with tree }) ∧
      ∀ tree', tree' = tree ∨ (∃ kept, tree' = tree.setRetained node kept ∨
          tree' = tree.setMetadata node kept) →
        ∀ {σ : Type} (receive : Receive σ) (s : σ) (e : Envelope) (k : DeliveryClass),
          let answers := answersOf receive e ((L.invited t k e.origin).map Entry.who) s
          answers.1.length = (L.invited t k e.origin).length ∧
          tree'.deliver receive node e k s = (answers.1.findSome? id, answers.2)) ∧
    (∀ k origin,
      (L.invited t k origin).Perm (L.filter (·.takes t k origin)) ∧
      (L.invited t k origin).Pairwise (fun n n' => n'.depth ≤ n.depth) ∧
      ∀ above : Topic, (L.invited t k origin).filter (·.topic.path = above.path) =
        (L.filter (·.takes t k origin)).filter (·.topic.path = above.path)) ∧
    (∀ e who, e.topic = .unsubscribe → e.control = some (.unsubscribe t who) →
      ((b.localCommand e).1.code = StatusCode.notFound.code ↔
        ∀ n ∈ L, ¬ (n.topic.path = t.path ∧ n.who = who))) ∧
    ∀ who before later, deeds = before ++ .dismissAll who :: later →
      (∀ t' flags, .enlist t' ⟨who, flags⟩ ∉ later) →
      L = (Roster.of (before ++ later)).filter (·.who ≠ who) ∧
        ∀ k origin, ∀ n ∈ L.invited t k origin, n.who ≠ who := by
  intro d b deeds L
  obtain ⟨hrooted, hcontents⟩ := run_contents_within config as n
  have henrolled : b.tree.contents.Enrolled L := by
    rw [show b.tree.contents = _ from hcontents]
    exact Contents.Enrolled.nothing.foldl_after deeds
  refine ⟨?_, ?_, ?_, ?_⟩
  · obtain ⟨node, tree, hnode, hmade⟩ := Bus.exists_nodeOf (b := b) hrooted t
    refine ⟨node, tree, hnode, fun tree' htree' σ receive s e k => ?_⟩
    have hmadeEnrolled : tree.contents.Enrolled L := by
      rw [hmade.contents_eq]
      exact henrolled.of_listeners rfl
    -- storing an envelope at the topic leaves the subscriptions alone
    have hsame : tree'.Rooted ∧ tree'.descend Tree.root t.segments = some node ∧
        tree'.contents.Enrolled L := by
      rcases htree' with rfl | ⟨kept, rfl | rfl⟩
      · exact ⟨hmade.rooted, hmade.descend_eq, hmadeEnrolled⟩
      · obtain ⟨hkept, hstored⟩ := hmade.rooted.setRetained hmade.descend_eq kept
        exact ⟨hkept, Tree.descend_modify hmade.descend_eq fun _ => ⟨rfl, rfl, rfl⟩,
          hmadeEnrolled.of_listeners (by rw [hstored])⟩
      · obtain ⟨hkept, hstored⟩ := hmade.rooted.setMetadata hmade.descend_eq kept
        exact ⟨hkept, Tree.descend_modify hmade.descend_eq fun _ => ⟨rfl, rfl, rfl⟩,
          hmadeEnrolled.of_listeners (by rw [hstored])⟩
    obtain ⟨hrooted', hnode', henrolled'⟩ := hsame
    refine ⟨by rw [length_answersOf, List.length_map], ?_⟩
    exact hrooted'.deliver_eq hnode' henrolled' receive s e k
  · intro k origin
    exact ⟨L.invited_perm t k origin, L.pairwise_invited t k origin, L.filter_invited t k origin⟩
  · intro e who he hcontrol
    exact Bus.localCommand_unsubscribe hrooted henrolled he hcontrol
  · intro who before later hdeeds hlater
    have hroster : L = (Roster.of (before ++ later)).filter (·.who ≠ who) := by
      show Roster.of deeds = _
      rw [hdeeds]
      exact Roster.of_dismissAll before hlater
    refine ⟨hroster, fun k origin n hn => ?_⟩
    have hmem : n ∈ L := List.mem_of_mem_filter ((L.invited_perm t k origin).mem_iff.mp hn)
    rw [hroster] at hmem
    exact of_decide_eq_true (List.mem_filter.mp hmem).2

end Dispatcher
end InstrumentBus
