import Mathlib
import InstrumentBus.Proofs.Dispatch.Alike
import InstrumentBus.Proofs.Dispatch.Shelf
import InstrumentBus.Proofs.Metadata.Check

/-!
# What is said of a value

A value that a topic takes is told to subscribers, each of which may answer it by an error, and a
device may refuse it later by a return code. `Reception` is the record of this for the last value that
a topic took; `Bus.receptionAfter` says what each deed adds to it, or that it begins anew.

As long as the topic keeps a value, the record is about the value that it keeps: `run_reception`.
-/

namespace InstrumentBus

/-- What came of the last value that a topic took. -/
structure Reception where
  /-- The value as it was told, -/
  value : Option Value := none
  /-- what each of those answered who were told of it, -/
  answers : List (Option StatusCode) := []
  /-- and the return codes that came from outside since then. -/
  codes : List Int32 := []

namespace Reception

variable {r : Reception}

/-- Nobody refused the value. -/
def Clean (r : Reception) : Prop := (∀ s ∈ r.answers, s = none) ∧ ∀ code ∈ r.codes, code = 0

/-- Nobody refused the value, but for an error that is named success: the first error of a subscriber
is the one that counts. -/
def Accepted (r : Reception) : Prop :=
  ((∀ s ∈ r.answers, s = none) ∨ r.answers.findSome? id = some .success) ∧ ∀ code ∈ r.codes, code = 0

instance (r : Reception) : Decidable r.Accepted := inferInstanceAs (Decidable (_ ∧ _))

theorem Clean.accepted (h : r.Clean) : r.Accepted := ⟨Or.inl h.1, h.2⟩

theorem Clean.hear (h : r.Clean) {codes : List Int32} (hcodes : ∀ code ∈ codes, code = 0) :
    Clean { r with codes := r.codes ++ codes } :=
  ⟨h.1, List.forall_mem_append.mpr ⟨h.2, hcodes⟩⟩

end Reception

theorem StatusCode.eq_success_of_code {s : StatusCode} (h : s.code = 0) : s = .success := by
  have hsuccess : s.code = success.code := h
  rw [← ofCode_code s, hsuccess, ofCode_code]

/-- A document that refuses a value says so by one status. -/
theorem Envelope.status_of_validated {document : Option Envelope} {e : Envelope} {s : StatusCode}
    (h : e.validated document = .error s) : s = .parameterInvalid := by
  unfold validated at h
  split at h
  case h_3 => cases h
  all_goals
    split at h <;> cases h
    exact Metadata.status_of_validate ‹_›

namespace Bus

variable {b : Bus} {e : Envelope} {t : Topic} {r : Reception} {deed : Deed} {deeds : List Deed}

/-! ## One value -/

/-- What is answered to a value by those who are told of it, once it is kept. -/
def answersTo (b : Bus) (e : Envelope) : List (Option StatusCode) :=
  let node := (b.tree.makeLevels Tree.root e.topic.segments).1
  let tree := (b.makeKnown e.topic).tree.setRetained node e
  (answersOf receive e (tree.recipients node .publish e.origin) { b with tree }).1

/-- What is said of the value of an envelope when it is processed, if it is passed on. -/
def answered? (b : Bus) (e : Envelope) : Option Reception :=
  match b.tree.contents.delivered? e with
  | some (e', .publish) => some { value := some e'.value, answers := b.answersTo e' }
  | _ => none

/-- What metadata make of a value that a client has for a topic is kept there already. -/
def isThere (b : Bus) (e : Envelope) : Bool :=
  !e.topic.isLocal && e.topic.path != "" &&
    (Metadata.judge (b.keptMetadata e.topic) e.value).toOption.any fun v =>
      (b.keptValue e.topic).any (· == v)

theorem isThere_iff :
    b.isThere e ↔ e.topic.isLocal = false ∧ e.topic.path ≠ "" ∧
      ∃ v, Metadata.judge (b.keptMetadata e.topic) e.value = .ok v ∧
        (b.keptValue e.topic).any (· == v) = true := by
  unfold isThere
  cases Metadata.judge (b.keptMetadata e.topic) e.value <;> simp [Except.toOption, and_assoc]

theorem isThere_eq (hlocal : e.topic.isLocal = false) (hroot : e.topic.path ≠ "") :
    b.isThere e = match e.validated (b.tree.contents.metadata e.topic.segments) with
      | .error _ => false
      | .ok e' => e'.repeats (b.tree.contents.value e.topic.segments) := by
  have hclient : (!e.topic.isLocal && e.topic.path != "") = true := by simp [hlocal, hroot]
  unfold isThere
  rw [hclient, Bool.true_and, keptMetadata_eq, keptValue_eq, ← Envelope.map_value_validated]
  cases e.validated (b.tree.contents.metadata e.topic.segments) with
  | error s => rfl
  | ok e' => cases b.tree.contents.value e.topic.segments <;> rfl

/-- A value of a topic is checked, compared with the one that is kept, and told to subscribers: it is
refused, or is there already, or what is announced is the first error that a subscriber answers. -/
theorem verdict_cases (h : b.tree.Rooted) (hlocal : e.topic.isLocal = false)
    (hroot : e.topic.path ≠ "") (hplain : e.topic.suffix = none) :
    (b.verdict e = some StatusCode.parameterInvalid.code ∧ b.isThere e = false ∧
      b.answered? e = none) ∨
    (b.verdict e = some 0 ∧ b.isThere e = true ∧ b.answered? e = none) ∨
    ∃ r, b.verdict e = (r.answers.findSome? id).map StatusCode.code ∧ b.isThere e = false ∧
      b.answered? e = some r ∧ r.codes = [] := by
  have hsegments : e.topic.segments ≠ [] :=
    fun hnil => hroot (Topic.path_eq_empty_iff_segments.mpr hnil)
  have hdelivered := Contents.delivered?_of_plain (c := b.tree.contents) hsegments hplain
  have hverdict : b.verdict e = (b.makeKnown e.topic).publicationVerdict
      (b.tree.makeLevels Tree.root e.topic.segments).1 e := by
    unfold verdict
    rw [if_neg hroot, nodeOf_eq, hplain]
  unfold answered?
  rw [hverdict, publicationVerdict, validate_makeKnown h, hdelivered, isThere_eq hlocal hroot]
  cases hvalidated : e.validated (b.tree.contents.metadata e.topic.segments) with
  | error s =>
    rw [Envelope.status_of_validated hvalidated]
    exact Or.inl ⟨rfl, rfl, rfl⟩
  | ok e' =>
    have htopic := (Envelope.validated_ok hvalidated).1
    simp only [isDuplicate_makeKnown h]
    by_cases hagain : e'.repeats (b.tree.contents.value e.topic.segments) = true
    · simp only [if_pos hagain]
      exact Or.inr (Or.inl ⟨trivial, hagain, trivial⟩)
    · simp only [if_neg hagain]
      refine Or.inr (Or.inr ⟨_, ?_, Bool.eq_false_iff.mpr hagain, rfl, rfl⟩)
      simp only [answersTo, deliver, Tree.deliver, deliverTo_eq, htopic]
      rfl

/-- What a client is told of a value is what is announced of it, or success. -/
theorem code_process (hroot : e.topic.path ≠ "") (hplain : e.topic.suffix = none) :
    Outcome.code (b.process e).1 = (b.verdict e).getD 0 := by
  unfold process verdict
  rw [if_neg hroot, if_neg hroot, nodeOf_eq, hplain]
  simp only
  generalize (b.tree.makeLevels Tree.root e.topic.segments).1 = node
  unfold publishValue publicationVerdict
  cases (b.makeKnown e.topic).validate node e with
  | error s => rfl
  | ok e' =>
    simp only
    split
    · rfl
    · generalize deliver _ _ _ _ = delivered
      obtain ⟨outcome, b'⟩ := delivered
      cases outcome <;> rfl

/-! ## Deeds -/

/-- What a deed adds to what is said of the value of a topic. Another value that the topic takes
begins a record of its own. -/
def receptionAfter (b : Bus) (t : Topic) (r : Reception) : Deed → Reception
  | .publish e =>
    if e.topic = t then (b.answered? e).getD r
    else if e.topic = t.withSuffix .returnCode then
      { r with codes := r.codes ++ e.value.returnCode?.toList }
    else r
  | .clear => {}
  | _ => r

/-- What several deeds add. -/
def receptionAll (t : Topic) : Bus → Reception → List Deed → Reception
  | _, r, [] => r
  | b, r, deed :: deeds => receptionAll t (b.perform deed) (b.receptionAfter t r deed) deeds

/-- Envelopes for other topics add nothing. -/
theorem receptionAfter_of_ne
    (hne : (e.topic.withSuffix .returnCode).text ≠ (t.withSuffix .returnCode).text) :
    b.receptionAfter t r (.publish e) = r := by
  have hvalue : e.topic ≠ t := by
    rintro rfl
    exact hne rfl
  have hcode : e.topic ≠ t.withSuffix .returnCode := by
    intro htopic
    refine hne ?_
    rw [Topic.withSuffix_of_suffix (by rw [htopic, Topic.suffix_withSuffix]), htopic]
  simp only [receptionAfter, if_neg hvalue, if_neg hcode]

/-- The value that is kept is the one of which the record is. -/
def Records (b : Bus) (t : Topic) (r : Reception) : Prop :=
  ∀ v, b.keptValue t = some v → r.value = some v

theorem Records.of_eq {b' : Bus} {r' : Reception} (h : b.Records t r)
    (hkept : b'.keptValue t = b.keptValue t) (hvalue : r'.value = r.value) : b'.Records t r' := by
  unfold Records
  rw [hkept, hvalue]
  exact h

/-- An envelope that passes on no value begins no record. -/
theorem value_receptionAfter_publish (hnone : b.answered? e = none ∨ e.topic ≠ t) :
    (b.receptionAfter t r (.publish e)).value = r.value := by
  simp only [receptionAfter]
  split
  · rename_i htopic
    rw [hnone.resolve_right (not_not_intro htopic), Option.getD_none]
  · split <;> rfl

theorem Records.perform (h : b.Records t r) (hrooted : b.tree.Rooted) (hplain : t.suffix = none)
    (deed : Deed) : (b.perform deed).Records t (b.receptionAfter t r deed) := by
  obtain ⟨posts, -, heffect⟩ := effect_perform hrooted deed
  have hkept : (b.perform deed).keptValue t =
      ((b.tree.contents.after deed).value t.segments).map Envelope.value := by
    rw [keptValue_eq, heffect.contents_eq]
  have hsame : (b.tree.contents.after deed).value t.segments = b.tree.contents.value t.segments →
      (b.perform deed).keptValue t = b.keptValue t := by
    intro hvalue
    rw [hkept, hvalue, keptValue_eq]
  cases deed with
  | announce t' code | enlist t' s | dismiss t' who | dismissAll who => exact h.of_eq (hsame rfl) rfl
  | clear =>
    intro v hv
    rw [hkept] at hv
    cases hv
  | publish e =>
    cases hdelivered : b.tree.contents.delivered? e with
    | none =>
      have hanswered : b.answered? e = none := by
        unfold answered?
        rw [hdelivered]
      refine h.of_eq (hsame ?_) (value_receptionAfter_publish (Or.inl hanswered))
      show (b.tree.contents.publish e).value _ = _
      rw [Contents.publish_of_none hdelivered]
      rfl
    | some found =>
      obtain ⟨e', k⟩ := found
      obtain ⟨-, htopic, -, -, -, -, hclass, -⟩ := Contents.delivered?_eq_some hdelivered
      have hafter : b.tree.contents.after (.publish e) =
          (b.tree.contents.reach e.topic.segments).store e' k := Contents.publish_of_some hdelivered
      rw [hafter] at hkept hsame
      cases k with
      | publish =>
        simp only [Contents.store, htopic] at hkept hsame
        by_cases ht : e.topic = t
        · -- the topic takes the value
          subst ht
          rw [Function.update_self] at hkept
          intro v hv
          rw [hkept] at hv
          simp only [receptionAfter, if_true, answered?, hdelivered, Option.getD_some]
          split at hv
          · exact hv
          · cases hv
        · have hne : t.segments ≠ e.topic.segments := fun heq =>
            ht (Topic.eq_of_segments heq.symm ((hclass.mp rfl).trans hplain.symm))
          exact h.of_eq (hsame (Function.update_of_ne hne _ _))
            (value_receptionAfter_publish (Or.inr ht))
      | _ =>
        have hanswered : b.answered? e = none := by
          unfold answered?
          rw [hdelivered]
        exact h.of_eq (hsame rfl) (value_receptionAfter_publish (Or.inl hanswered))

theorem Records.performAll (h : b.Records t r) (hrooted : b.tree.Rooted) (hplain : t.suffix = none)
    (deeds : List Deed) : (b.performAll deeds).Records t (receptionAll t b r deeds) := by
  induction deeds generalizing b r with
  | nil => exact h
  | cons deed deeds ih =>
    obtain ⟨posts, -, heffect⟩ := effect_perform hrooted deed
    exact ih (h.perform hrooted hplain deed) heffect.rooted

theorem Records.of_untold {b' : Bus} (h : b.Records t r) (huntold : b.Untold b') : b'.Records t r := by
  refine h.of_eq ?_ rfl
  unfold keptValue
  rw [huntold.tree_eq]

end Bus

/-! ## Runs -/

namespace Dispatcher

variable {d : Dispatcher} {t : Topic} {r : Reception}

/-- What the next step adds to what is said of the value of a topic. -/
def receptionOf (d : Dispatcher) (t : Topic) (r : Reception) : Action → Reception
  | .advance => d.plan.bus.receptionAll t r d.plan.deeds
  | _ => r

/-- What is said of it from some moment on. -/
def receptionFrom (t : Topic) : Dispatcher → Reception → List Action → Reception
  | _, r, [] => r
  | d, r, a :: as => receptionFrom t (d.act a) (d.receptionOf t r a) as

/-- What is said of the last value that a topic took in a run. -/
def reception (config : BusConfig) (as : List Action) (t : Topic) : Reception :=
  receptionFrom t ⟨.start config, .awake⟩ (Bus.receptionAll t { config } {} (opening config)) as

theorem receptionFrom_append (t : Topic) (d : Dispatcher) (r : Reception) (as bs : List Action) :
    receptionFrom t d r (as ++ bs) = receptionFrom t (d.runFrom as) (receptionFrom t d r as) bs := by
  induction as generalizing d r with
  | nil => rfl
  | cons a as ih => exact ih (d.act a) (d.receptionOf t r a)

theorem reception_append (config : BusConfig) (as bs : List Action) (t : Topic) :
    reception config (as ++ bs) t = receptionFrom t (run config as) (reception config as t) bs :=
  receptionFrom_append ..

theorem records_act (h : d.bus.Records t r) (hrooted : d.bus.tree.Rooted) (hplain : t.suffix = none)
    (a : Action) : (d.act a).bus.Records t (d.receptionOf t r a) := by
  by_cases ha : a = .advance
  · subst ha
    have hplan := h.of_untold d.untold_plan
    exact (hplan.performAll (d.untold_plan.rooted hrooted) hplain _).of_untold (untold_advance hrooted)
  · have hsame : d.receptionOf t r a = r := by
      cases a with
      | advance => exact absurd rfl ha
      | _ => rfl
    rw [hsame]
    exact h.of_untold (untold_act ha)

/-- In every state of every run, the value that a topic keeps is the one of which the record is. -/
theorem run_reception (config : BusConfig) (as : List Action) (hplain : t.suffix = none) :
    (run config as).bus.Records t (reception config as t) := by
  induction as using List.reverseRecOn with
  | nil =>
    have hempty : ({ config } : Bus).Records t {} := by
      intro v hv
      rw [Bus.keptValue_eq, show ({ config } : Bus).tree.contents = .nothing from Tree.contents_empty]
        at hv
      cases hv
    have hstart := hempty.performAll Tree.rooted_empty hplain (opening config)
    rw [← start_eq] at hstart
    simp only [reception, receptionFrom, run, runFrom, List.foldl_nil]
    exact hstart
  | append_singleton as a ih =>
    rw [run_append, reception_append]
    exact records_act ih (run_contents config as).1 hplain a

end Dispatcher
end InstrumentBus
