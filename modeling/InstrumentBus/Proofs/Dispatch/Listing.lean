import Mathlib
import InstrumentBus.Proofs.Dispatch.Census
import InstrumentBus.Proofs.Dispatch.Inventory

/-!
# Reading the list of the devices

The list of the devices is one text, the prefixes with commas between them, and clients get the
prefixes back by cutting it at the commas. A comma is no reserved character, so a prefix may contain
one, and then cutting gives something else: `Devices.names_readable_iff`. What decides is that every
prefix has two slashes: the slashes of a list tell how many devices there are, and its commas how
many of them are inside prefixes.
-/

namespace InstrumentBus

/-! ## Counting characters -/

namespace Text

variable {c sep : Char} {ps : List (List Char)}

/-- A text is cut once at each separator. -/
theorem length_pieces_eq_count (sep : Char) (cs : List Char) :
    (pieces sep cs).length = cs.count sep + 1 := by
  induction cs with
  | nil => rfl
  | cons c cs ih =>
    unfold pieces
    by_cases hc : c = sep
    · rw [if_pos hc, List.length_cons, ih, hc, List.count_cons_self]
    · rw [if_neg hc, List.count_cons_of_ne hc]
      cases hpieces : pieces sep cs with
      | nil => exact absurd hpieces (pieces_ne_nil sep cs)
      | cons p ps =>
        rw [hpieces] at ih
        exact ih

/-- Joining adds separators and nothing else, -/
theorem count_intercalate_of_ne (h : c ≠ sep) (ps : List (List Char)) :
    (List.intercalate [sep] ps).count c = (ps.map (List.count c)).sum := by
  induction ps with
  | nil => rfl
  | cons p ps ih =>
    cases ps with
    | nil => simp
    | cons q qs =>
      rw [List.intercalate_cons_cons, List.count_append, List.count_append, ih,
        List.count_singleton, if_neg (by simpa using h.symm), Nat.add_zero]
      rfl

/-- one between any two pieces. -/
theorem count_intercalate_self (hne : ps ≠ []) :
    (List.intercalate [sep] ps).count sep + 1 = (ps.map (List.count sep)).sum + ps.length := by
  induction ps with
  | nil => exact absurd rfl hne
  | cons p ps ih =>
    cases ps with
    | nil => simp
    | cons q qs =>
      have hrest := ih (List.cons_ne_nil q qs)
      rw [List.intercalate_cons_cons, List.count_append, List.count_append,
        List.count_singleton_self, List.map_cons, List.sum_cons, List.length_cons]
      omega

end Text

/-- The prefix of a device has two slashes. -/
theorem Topic.IsDevicePrefix.count_slash {t : Topic} (h : t.IsDevicePrefix) :
    t.text.toList.count '/' = 2 := by
  have hlength := h.length_pieces
  rw [Text.length_pieces_eq_count] at hlength
  rw [h.text_eq, Topic.path, String.toList_ofList]
  exact Nat.succ_injective hlength

namespace Devices

variable {d d' : Devices}

/-! ## Lists of prefixes -/

/-- The prefixes that a client reads in a list of devices: what is between the commas, or none if
there is nothing. -/
def readNames (list : String) : List String :=
  if list = "" then [] else (Text.pieces ',' list.toList).map String.ofList

/-- The devices have prefixes that are accepted, and different ones. -/
structure Registrable (d : Devices) : Prop where
  accepted : ∀ device ∈ d.list, ∃ name, Device.parsePrefix name = .ok device.topic
  distinct : d.prefixes.Nodup

/-- No prefix contains a comma. -/
def CommaFree (d : Devices) : Prop := ∀ name ∈ d.prefixes, ',' ∉ name.toList

/-- The prefixes as lists of characters. -/
def nameChars (d : Devices) : List (List Char) := d.prefixes.map String.toList

theorem ofList_nameChars (d : Devices) : d.nameChars.map String.ofList = d.prefixes := by
  unfold nameChars
  rw [List.map_map]
  exact List.map_id'' (fun name => String.ofList_toList) d.prefixes

theorem nameChars_eq_nil_iff : d.nameChars = [] ↔ d.prefixes = [] := List.map_eq_nil_iff

theorem toList_names (d : Devices) : d.names.toList = List.intercalate [','] d.nameChars :=
  String.toList_intercalate ..

/-- There are twice as many slashes in a list as devices. -/
theorem Registrable.count_slash (h : d.Registrable) :
    d.names.toList.count '/' = 2 * d.prefixes.length := by
  have htwo : ∀ cs ∈ d.nameChars, cs.count '/' = 2 := by
    intro cs hcs
    obtain ⟨name, hname, rfl⟩ := List.mem_map.mp hcs
    obtain ⟨device, hdevice, rfl⟩ := List.mem_map.mp hname
    obtain ⟨_, haccepted⟩ := h.accepted device hdevice
    exact (Bus.isDevicePrefix_of_parsePrefix haccepted).count_slash
  -- a comma is no slash, so the slashes of the prefixes are all there are
  rw [toList_names, Text.count_intercalate_of_ne (by decide), List.map_congr_left htwo,
    List.map_const', List.sum_replicate, nameChars, List.length_map, smul_eq_mul, Nat.mul_comm]

/-- The commas of a list are those between the prefixes, unless some are inside. -/
theorem commaFree_iff_count (hne : d.prefixes ≠ []) :
    d.CommaFree ↔ d.names.toList.count ',' + 1 = d.prefixes.length := by
  have hcount : (List.intercalate [','] d.nameChars).count ',' + 1 = _ :=
    Text.count_intercalate_self (mt nameChars_eq_nil_iff.mp hne)
  rw [← toList_names, nameChars, List.length_map] at hcount
  have hfree : d.CommaFree ↔ (d.nameChars.map (List.count ',')).sum = 0 := by
    unfold CommaFree nameChars
    rw [List.sum_eq_zero_iff]
    simp [List.count_eq_zero]
  rw [hfree, hcount, nameChars]
  omega

theorem Registrable.names_eq_empty_iff (h : d.Registrable) : d.names = "" ↔ d.prefixes = [] := by
  have hcount := h.count_slash
  constructor
  · intro hempty
    rw [hempty] at hcount
    have hlength : 0 = 2 * d.prefixes.length := hcount
    exact List.length_eq_zero_iff.mp (by omega)
  · intro hnone
    show String.intercalate "," d.prefixes = ""
    rw [hnone]
    rfl

/-- Cutting gives back prefixes without commas, -/
theorem readNames_names (h : d.Registrable) (hfree : d.CommaFree) :
    readNames d.names = d.prefixes := by
  unfold readNames
  split
  · rename_i hempty
    exact (h.names_eq_empty_iff.mp hempty).symm
  · rename_i hempty
    have hne : d.nameChars ≠ [] := fun hnil =>
      hempty (h.names_eq_empty_iff.mpr (nameChars_eq_nil_iff.mp hnil))
    rw [toList_names, Text.pieces_intercalate hne, ofList_nameChars]
    intro cs hcs
    obtain ⟨name, hname, rfl⟩ := List.mem_map.mp hcs
    exact hfree name hname

/-- and nothing that it gives has a comma. -/
theorem notMem_of_mem_readNames {list name : String} (h : name ∈ readNames list) :
    ',' ∉ name.toList := by
  unfold readNames at h
  split at h
  · cases h
  · obtain ⟨cs, hcs, rfl⟩ := List.mem_map.mp h
    rw [String.toList_ofList]
    exact Text.notMem_of_mem_pieces hcs

/-- Devices with the same list are as many, with as many commas inside their prefixes. -/
theorem Registrable.commaFree_of_names_eq (h : d.Registrable) (h' : d'.Registrable)
    (hfree : d.CommaFree) (hnames : d'.names = d.names) : d'.CommaFree := by
  have hslashes := h.count_slash
  rw [← hnames, h'.count_slash] at hslashes
  have hlength : d'.prefixes.length = d.prefixes.length := by omega
  by_cases hne : d.prefixes = []
  · -- a list without slashes is that of no devices
    rw [hne] at hlength
    rw [CommaFree, List.length_eq_zero_iff.mp hlength]
    exact List.forall_mem_nil _
  · have hne' : d'.prefixes ≠ [] := by
      rw [← List.length_pos_iff, hlength]
      exact List.length_pos_iff.mpr hne
    rw [commaFree_iff_count hne', hnames, hlength]
    exact (commaFree_iff_count hne).mp hfree

/-- Cutting the list of the devices at its commas gives back their prefixes, in the order of their
registration, exactly if no prefix contains a comma. No other devices, with commas in their prefixes
or not, then have the same list. -/
theorem names_readable_iff (h : d.Registrable) :
    (readNames d.names = d.prefixes ↔ d.CommaFree) ∧
      (d.CommaFree → ∀ d' : Devices, d'.Registrable → d'.names = d.names →
        d'.prefixes = d.prefixes) := by
  refine ⟨⟨fun hread name hname => ?_, readNames_names h⟩, fun hfree d' h' hnames => ?_⟩
  · rw [← hread] at hname
    exact notMem_of_mem_readNames hname
  · have hfree' := h.commaFree_of_names_eq h' hfree hnames
    rw [← readNames_names h' hfree', hnames, readNames_names h hfree]

/-- Of two registries with the same list, one has a comma in the first prefix and the other one in
the second. -/
def commaFirst : Devices :=
  ⟨[⟨⟨"a/b/c,x", by decide⟩, 0⟩, ⟨⟨"d/e/f", by decide⟩, 1⟩]⟩

def commaSecond : Devices :=
  ⟨[⟨⟨"a/b/c", by decide⟩, 0⟩, ⟨⟨"x,d/e/f", by decide⟩, 1⟩]⟩

theorem not_names_always_readable :
    (commaFirst.Registrable ∧ commaSecond.Registrable) ∧
      readNames commaFirst.names ≠ commaFirst.prefixes ∧
      readNames commaSecond.names ≠ commaSecond.prefixes ∧
      commaFirst.names = commaSecond.names ∧ commaFirst.prefixes ≠ commaSecond.prefixes := by
  refine ⟨⟨⟨?_, by decide +kernel⟩, ⟨?_, by decide +kernel⟩⟩, by decide +kernel, by decide +kernel,
    by decide +kernel, by decide +kernel⟩
  · intro device hdevice
    simp only [commaFirst, List.mem_cons, List.not_mem_nil, or_false] at hdevice
    rcases hdevice with rfl | rfl
    · exact ⟨"a/b/c,x", by decide +kernel⟩
    · exact ⟨"d/e/f", by decide +kernel⟩
  · intro device hdevice
    simp only [commaSecond, List.mem_cons, List.not_mem_nil, or_false] at hdevice
    rcases hdevice with rfl | rfl
    · exact ⟨"a/b/c", by decide +kernel⟩
    · exact ⟨"x,d/e/f", by decide +kernel⟩

end Devices

/-! ## The devices of a run -/

/-- What a device may be registered with is read as it is. -/
theorem Device.parsePrefix_text {t : Topic} (h : t.IsDevicePrefix) :
    Device.parsePrefix t.text = .ok t := by
  have hsame : t.withoutSuffix = t := by
    obtain ⟨text, checked⟩ := t
    rw [Topic.mk.injEq]
    exact h.text_eq.symm
  unfold Device.parsePrefix
  rw [h.text_eq, t.parse_path, hsame]
  simp only [h.1, h.2, Option.isNone_none, and_self, if_true]

/-- In every state of a run, the devices are such that could be registered one after the other. -/
theorem Dispatcher.run_registrable (config : BusConfig) (as : List Action) :
    (run config as).bus.devices.Registrable := by
  have hregistered := (run_registered config as).bus
  refine ⟨fun device hdevice => ?_, hregistered.nodup_texts⟩
  have hprefix := hregistered.inOrder.prefixes device hdevice
  exact ⟨device.topic.text, Device.parsePrefix_text hprefix⟩

/-- The list of the two devices of a run is read by cutting it at its comma. -/
theorem Dispatcher.twoCome_readable :
    (run {} twoCome).bus.devices.Registrable ∧
      Devices.readNames (run {} twoCome).bus.devices.names = ["u/a/1", "u/b/2"] := by
  have hregistrable := run_registrable {} twoCome
  have hprefixes : (run {} twoCome).bus.devices.prefixes = ["u/a/1", "u/b/2"] := by decide +kernel
  have hfree : (run {} twoCome).bus.devices.CommaFree := by
    unfold Devices.CommaFree
    rw [hprefixes]
    decide
  refine ⟨hregistrable, ?_⟩
  rw [← hprefixes]
  exact (Devices.names_readable_iff hregistrable).1.mpr hfree

end InstrumentBus
