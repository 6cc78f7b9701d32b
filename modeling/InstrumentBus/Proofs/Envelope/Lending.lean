import Mathlib
import InstrumentBus.Proofs.Envelope.Storage
import InstrumentBus.Envelope.Pool
import InstrumentBus.Bus.Topics

/-!
# Envelopes from a pool

`Lending` is a pool together with all envelopes that were ever made from it. They are made, copied,
changed and dropped in any order, before and after the pool is closed; `Lending.act` is one of these
actions, `Lending.run` any number of them.

`Lending.said` is what the envelopes should say, told from the actions alone: a change of an envelope
is one of its own record. `run_faithful` says that this is what they say, and that the bytes of each
value lie where they should.
-/

namespace InstrumentBus

namespace Pool

theorem list_modify (p : Pool) (c : SizeClass) (f : FreeList → FreeList) (c' : SizeClass) :
    (p.modify c f).list c' = if c' = c then f (p.list c') else p.list c' := by
  cases c <;> cases c' <;> rfl

theorem sizes_eq_of_capacity {p p' : Pool} (h : ∀ c, (p'.list c).capacity = (p.list c).capacity) :
    p'.sizes = p.sizes := by
  unfold sizes
  rw [show p'.control.capacity = p.control.capacity from h .control,
    show p'.stream.capacity = p.stream.capacity from h .stream]

/-- What changes no capacity leaves the sizes of buffers as they are. -/
theorem sizes_modify (p : Pool) (c : SizeClass) {f : FreeList → FreeList}
    (hf : ∀ l, (f l).capacity = l.capacity) : (p.modify c f).sizes = p.sizes := by
  refine sizes_eq_of_capacity fun c' => ?_
  rw [list_modify]
  split
  · exact hf _
  · rfl

theorem sizes_take (p : Pool) (c : SizeClass) : (p.take c).2.sizes = p.sizes := by
  refine sizes_modify p c fun l => ?_
  unfold FreeList.take
  split <;> rfl

theorem sizes_release (p : Pool) (e : Envelope) : (p.release e).sizes = p.sizes :=
  sizes_modify p _ fun _ => rfl

end Pool

/-- A pool and the envelopes that were made from it, with none in the place of one that was
dropped. -/
structure Lending where
  pool : Pool
  held : List (Option Envelope) := []

namespace Lending

open Envelope

/-- What can be done with a pool and its envelopes, which are numbered as they were made. -/
inductive Action
  | alloc
  | allocStream (topic : Topic)
  | allocFor (topic : Topic) (length : Nat)
  | envelope (topic : Topic) (v : Stored) (flags : ValueFlags)
  | clone (i : Nat)
  | drop (i : Nat)
  | edit (i : Nat) (change : Edit)
  | close

variable {sizes : BufferSizes} {s : Lending} {e : Envelope} {i : Nat} {a : Action}

/-- The envelope with a number, if it was made and not dropped. -/
def at? (s : Lending) (i : Nat) : Option Envelope := s.held[i]?.join

/-- Keeps an envelope that was just made. -/
def hold (s : Lending) (made : Envelope × Pool) : Lending :=
  { pool := made.2, held := s.held ++ [some made.1] }

/-- Carries out an action; one on an envelope that is not there does nothing. -/
def act (s : Lending) : Action → Lending
  | .alloc => s.hold s.pool.alloc
  | .allocStream topic => s.hold (s.pool.allocStream topic)
  | .allocFor topic length => s.hold (s.pool.allocFor topic length)
  | .envelope topic v flags => s.hold (s.pool.envelope topic v flags)
  | .clone i =>
    match s.at? i with
    | some e => s.hold (s.pool.clone e)
    | none => s
  | .drop i => { pool := s.pool.releaseAll (s.at? i).toList, held := s.held.set i none }
  | .edit i change => { s with held := s.held.modify i (Option.map (·.edit change)) }
  | .close => { s with pool := s.pool.close }

/-- A new pool, from which nothing was made. -/
def ofSizes (sizes : BufferSizes) (control stream : Nat) : Lending :=
  { pool := .ofSizes sizes control stream }

/-- What some actions make of a new pool. -/
def run (sizes : BufferSizes) (control stream : Nat) (as : List Action) : Lending :=
  as.foldl act (ofSizes sizes control stream)

/-- The envelope that an action changes or drops. -/
def Action.target? : Action → Option Nat
  | .drop i | .edit i _ => some i
  | _ => none

/-! ## What envelopes should say -/

/-- What is said by all envelopes after an action, from what they said before. -/
def sayNext (sizes : BufferSizes) (said : List (Option Saying)) : Action → List (Option Saying)
  | .alloc => said ++ [some (.blank .root .control)]
  | .allocStream topic => said ++ [some (.blank topic .stream)]
  | .allocFor topic length => said ++ [some (.blank topic (sizes.classFor length))]
  | .envelope topic v flags =>
    let blank := Saying.blank topic (sizes.classFor v.value.byteLength)
    said ++ [some { blank with value := v.value, const := v.isConst, retain := flags.retain }]
  | .clone i =>
    match said[i]?.join with
    | some saying => said ++ [some saying.copied]
    | none => said
  | .drop i => said.set i none
  | .edit i change => said.modify i (Option.map (·.edit change))
  | .close => said

/-- What is said by all envelopes that some actions make. -/
def said (sizes : BufferSizes) (as : List Action) : List (Option Saying) :=
  as.foldl (sayNext sizes) []

/-! ## One action -/

/-- The buffers are of the sizes that the pool was made with, and the values lie where they should. -/
structure Sound (sizes : BufferSizes) (s : Lending) : Prop where
  sizes_eq : s.pool.sizes = sizes
  faithful : ∀ e, some e ∈ s.held → e.Faithful sizes

theorem mem_held_of_at? (h : s.at? i = some e) : some e ∈ s.held :=
  List.mem_of_getElem? (Option.join_eq_some_iff.mp h)

/-- An empty envelope around a buffer of the pool. -/
theorem faithful_ofBuffer (sizes : BufferSizes) (topic : Topic) (c : SizeClass) :
    (ofBuffer topic (sizes.buffer c)).Faithful sizes := by
  refine .of_stored rfl rfl rfl fun _ hpointer => ?_
  cases hpointer

theorem faithful_envelope (p : Pool) (topic : Topic) (v : Stored) (flags : ValueFlags) :
    (p.envelope topic v flags).1.Faithful p.sizes :=
  (faithful_setValue (faithful_ofBuffer p.sizes topic _).limit_eq v).congr rfl rfl rfl

/-- An envelope that is made of a value says so. -/
theorem saying_envelope (p : Pool) (topic : Topic) (v : Stored) (flags : ValueFlags) :
    (p.envelope topic v flags).1.saying =
      { Saying.blank topic (p.sizes.classFor v.value.byteLength) with
        value := v.value, const := v.isConst, retain := flags.retain } := by
  let empty := ofBuffer topic (p.sizes.buffer (p.sizes.classFor v.value.byteLength))
  calc ((empty.setValue v).setFlags flags).saying
      = (empty.setValue v).saying.edit (.setFlags flags) := saying_edit _ (.setFlags flags)
    _ = _ := by rw [saying_setValue]; rfl

theorem Sound.hold (h : s.Sound sizes) {made : Envelope × Pool} (hsizes : made.2.sizes = s.pool.sizes)
    (hmade : made.1.Faithful s.pool.sizes) : (s.hold made).Sound sizes := by
  refine ⟨hsizes.trans h.sizes_eq, fun e he => ?_⟩
  rcases List.mem_append.mp he with he | he
  · exact h.faithful e he
  · rw [Option.some.inj (List.mem_singleton.mp he), ← h.sizes_eq]
    exact hmade

theorem Sound.act (h : s.Sound sizes) (a : Action) : (s.act a).Sound sizes := by
  cases a with
  | alloc => exact h.hold (s.pool.sizes_take _) (faithful_ofBuffer _ _ _)
  | allocStream topic => exact h.hold (s.pool.sizes_take _) (faithful_ofBuffer _ _ _)
  | allocFor topic length => exact h.hold (s.pool.sizes_take _) (faithful_ofBuffer _ _ _)
  | envelope topic v flags => exact h.hold (s.pool.sizes_take _) (faithful_envelope _ _ _ _)
  | clone i =>
    simp only [Lending.act]
    cases hi : s.at? i with
    | none => exact h
    | some e =>
      have he : e.Faithful s.pool.sizes := h.sizes_eq ▸ h.faithful e (mem_held_of_at? hi)
      exact h.hold (s.pool.sizes_take _) he.cloneInto
  | drop i =>
    refine ⟨?_, fun e he => ?_⟩
    · show (s.pool.releaseAll _).sizes = sizes
      rw [← h.sizes_eq]
      cases s.at? i with
      | none => rfl
      | some e => exact s.pool.sizes_release e
    · rcases List.mem_or_eq_of_mem_set he with he | he
      · exact h.faithful e he
      · cases he
  | edit i change =>
    refine ⟨h.sizes_eq, fun e he => ?_⟩
    -- what is there now was there before, and is changed if it has the number
    obtain ⟨j, hj⟩ := List.mem_iff_getElem?.mp he
    rw [Lending.act, List.getElem?_modify] at hj
    obtain ⟨held, hheld, heq⟩ := Option.map_eq_some_iff.mp hj
    split at heq
    · obtain ⟨before, hbefore, rfl⟩ := Option.map_eq_some_iff.mp heq
      exact (h.faithful before (hbefore ▸ List.mem_of_getElem? hheld)).edit change
    · exact h.faithful e (heq ▸ List.mem_of_getElem? hheld)
  | close => exact ⟨h.sizes_eq, h.faithful⟩

/-- What the envelopes say. -/
def sayings (s : Lending) : List (Option Saying) := s.held.map (Option.map saying)

theorem sayings_hold (s : Lending) (made : Envelope × Pool) :
    (s.hold made).sayings = s.sayings ++ [some made.1.saying] := by
  unfold sayings hold
  rw [List.map_append]
  rfl

theorem join_sayings (s : Lending) (i : Nat) : s.sayings[i]?.join = (s.at? i).map saying := by
  unfold sayings at?
  rw [List.getElem?_map]
  cases s.held[i]? <;> rfl

/-- Envelopes go on to say what they should. -/
theorem Sound.sayings_act (h : s.Sound sizes) (a : Action) :
    (s.act a).sayings = sayNext sizes s.sayings a := by
  obtain ⟨rfl, -⟩ := h
  cases a with
  | alloc => exact s.sayings_hold _
  | allocStream topic => exact s.sayings_hold _
  | allocFor topic length => exact s.sayings_hold _
  | envelope topic v flags =>
    refine (s.sayings_hold _).trans ?_
    exact congrArg (s.sayings ++ [some ·]) (saying_envelope s.pool topic v flags)
  | clone i =>
    simp only [Lending.act, sayNext, join_sayings]
    cases s.at? i with
    | none => rfl
    | some e =>
      refine (s.sayings_hold _).trans ?_
      exact congrArg (s.sayings ++ [some ·]) (saying_cloneInto s.pool.sizes e)
  | drop i => exact List.map_set
  | edit i change =>
    refine List.ext_getElem? fun j => ?_
    simp only [Lending.act, sayNext, sayings, List.getElem?_map, List.getElem?_modify]
    cases s.held[j]? with
    | none => rfl
    | some held =>
      by_cases hj : i = j
      · cases held with
        | none => simp [hj]
        | some e => simp [hj, saying_edit]
      · simp [hj]
  | close => rfl

/-- An action leaves all envelopes alone but the one that it changes or drops. -/
theorem getElem?_act (s : Lending) (hi : i < s.held.length) (ha : a.target? ≠ some i) :
    (s.act a).held[i]? = s.held[i]? ∧ i < (s.act a).held.length := by
  have hhold : ∀ made, (s.hold made).held[i]? = s.held[i]? ∧ i < (s.hold made).held.length := by
    intro made
    refine ⟨List.getElem?_append_left hi, ?_⟩
    show i < (s.held ++ [some made.1]).length
    rw [List.length_append]
    exact Nat.lt_add_right _ hi
  cases a with
  | alloc => exact hhold _
  | allocStream topic => exact hhold _
  | allocFor topic length => exact hhold _
  | envelope topic v flags => exact hhold _
  | clone j =>
    simp only [act]
    cases s.at? j with
    | none => exact ⟨rfl, hi⟩
    | some e => exact hhold _
  | drop j =>
    have hne : j ≠ i := fun heq => ha (congrArg some heq)
    exact ⟨List.getElem?_set_ne hne, by simpa [act] using hi⟩
  | edit j change =>
    have hne : j ≠ i := fun heq => ha (congrArg some heq)
    simp [act, hne, hi]
  | close => exact ⟨rfl, hi⟩

/-! ## Any actions -/

theorem sound_run (sizes : BufferSizes) (control stream : Nat) (as : List Action) :
    (run sizes control stream as).Sound sizes ∧
      (run sizes control stream as).sayings = said sizes as := by
  induction as using List.reverseRecOn with
  | nil => exact ⟨⟨rfl, fun e he => absurd he List.not_mem_nil⟩, rfl⟩
  | append_singleton as a ih =>
    unfold run said
    rw [List.foldl_append, List.foldl_append]
    refine ⟨ih.1.act a, (ih.1.sayings_act a).trans ?_⟩
    rw [ih.2]
    rfl

theorem getElem?_foldl_act (s : Lending) (hi : i < s.held.length) {as : List Action}
    (has : ∀ a ∈ as, a.target? ≠ some i) : (as.foldl act s).held[i]? = s.held[i]? := by
  induction as generalizing s with
  | nil => rfl
  | cons a as ih =>
    obtain ⟨ha, has⟩ := List.forall_mem_cons.mp has
    obtain ⟨hsame, hlt⟩ := s.getElem?_act hi ha
    exact (ih _ hlt has).trans hsame

/-- Bytes that fit any buffer get one that they fit. -/
theorem le_limit_classFor_iff (sizes : BufferSizes) (length : Nat) :
    length ≤ sizes.limit (sizes.classFor length) ↔ length ≤ max sizes.control sizes.stream := by
  unfold BufferSizes.classFor
  split
  · rename_i h
    simp [BufferSizes.limit, h.2]
  · rename_i h
    simp only [BufferSizes.limit]
    omega

/-- An envelope that is made of a value holds it in its buffer if the larger buffers could. -/
theorem isInline_envelope_iff (p : Pool) (topic : Topic) (v : Stored) (flags : ValueFlags) :
    (p.envelope topic v flags).1.isInline = true ↔ v.isConst = false ∧
      v.value.type.isPointer = true ∧ v.value.byteLength ≤ max p.sizes.control p.sizes.stream := by
  have hsaying := saying_envelope p topic v flags
  have hvalue : (p.envelope topic v flags).1.value = v.value := congrArg Saying.value hsaying
  have hconst : (p.envelope topic v flags).1.flags.const = v.isConst := congrArg Saying.const hsaying
  have hclass : (p.envelope topic v flags).1.sizeClass = p.sizes.classFor v.value.byteLength :=
    congrArg Saying.sizeClass hsaying
  rw [(faithful_envelope p topic v flags).inline_iff, hvalue, hconst, hclass, le_limit_classFor_iff]

/-- Whatever is done with the envelopes of a pool, each of them says what was put into it last, and
nothing that is done to the others is seen in it. It is flagged as a constant just if it refers to
one, and its value lies in its buffer just if it may lie in a buffer, is no constant and fits; then
the buffer holds the bytes of the value. What is taken out is the value that was there. A copy says
the same in the same place, but for sender, call and command, which stay behind. An envelope that is
made of a value holds it in its buffer if it is no constant and fits the larger buffers. -/
theorem run_faithful (sizes : BufferSizes) (control stream : Nat) (as : List Action) :
    (run sizes control stream as).sayings = said sizes as ∧
      (∀ i e, (run sizes control stream as).at? i = some e →
        e.Faithful sizes ∧
        (e.takeValue.1.value = e.value ∧ e.takeValue.1.isConst = e.flags.const ∧
          e.takeValue.2.value = .null) ∧
        ((run sizes control stream as).pool.clone e).1.saying = e.saying.copied ∧
        ((run sizes control stream as).pool.clone e).1.isInline = e.isInline) ∧
      (∀ i < (run sizes control stream as).held.length, ∀ later : List Action,
        (∀ a ∈ later, a.target? ≠ some i) →
          (run sizes control stream (as ++ later)).at? i = (run sizes control stream as).at? i) ∧
      ∀ topic v flags,
        ((run sizes control stream as).pool.envelope topic v flags).1.isInline = true ↔
          v.isConst = false ∧ v.value.type.isPointer = true ∧
            v.value.byteLength ≤ max sizes.control sizes.stream := by
  obtain ⟨hsound, hsaid⟩ := sound_run sizes control stream as
  have hlater : ∀ later, run sizes control stream (as ++ later) =
      later.foldl act (run sizes control stream as) := fun _ => List.foldl_append
  simp only [hlater]
  generalize run sizes control stream as = s at hsound hsaid
  obtain ⟨rfl, hfaithful⟩ := hsound
  refine ⟨hsaid, fun i e hi => ?_, fun i hi later hothers => ?_, fun topic v flags => ?_⟩
  · have he := hfaithful e (mem_held_of_at? hi)
    obtain ⟨hvalue, hconst⟩ := he.takeValue
    exact ⟨he, ⟨hvalue, hconst, rfl⟩, saying_cloneInto s.pool.sizes e, isInline_cloneInto he⟩
  · exact congrArg Option.join (s.getElem?_foldl_act hi hothers)
  · exact isInline_envelope_iff s.pool topic v flags

/-- A text is put into an envelope, which is copied. -/
def copies : List Action :=
  [.envelope .deviceList ⟨.str "p,q", .owned⟩ .retained, .clone 0]

/-- The first envelope is emptied, used again for a constant and dropped. -/
def reuses : List Action :=
  [.edit 0 .takeValue, .edit 0 (.setValue ⟨.str "constant", .static⟩), .clone 0, .drop 0]

/-- The copy is as it was. -/
theorem copy_kept :
    (∀ a ∈ reuses, a.target? ≠ some 1) ∧ 1 < (run ⟨4, 8⟩ 0 1 copies).held.length ∧
      (run ⟨4, 8⟩ 0 1 (copies ++ reuses)).at? 1 = (run ⟨4, 8⟩ 0 1 copies).at? 1 ∧
      ∃ e, (run ⟨4, 8⟩ 0 1 copies).at? 1 = some e ∧ e.Faithful ⟨4, 8⟩ := by
  have hothers : ∀ a ∈ reuses, a.target? ≠ some 1 := by decide
  have hlt : 1 < (run ⟨4, 8⟩ 0 1 copies).held.length := by decide +kernel
  have hthere : ((run ⟨4, 8⟩ 0 1 copies).at? 1).isSome = true := by decide +kernel
  obtain ⟨e, he⟩ := Option.isSome_iff_exists.mp hthere
  obtain ⟨-, hfaithful, hkept, -⟩ := run_faithful ⟨4, 8⟩ 0 1 copies
  exact ⟨hothers, hlt, hkept 1 hlt reuses hothers, e, he, (hfaithful 1 e he).1⟩

end Lending
end InstrumentBus
