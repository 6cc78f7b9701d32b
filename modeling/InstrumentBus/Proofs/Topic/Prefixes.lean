import Mathlib
import InstrumentBus.Proofs.Topic.Grammar

/-!
# Topics below other topics

The test whether a topic lies below another runs on the bytes of both paths, and the prefix of a
device is cut off at the third slash. Here both are said of levels.

* `startsWithBytes_eq`: the bytes in front of a slash are the bytes of whole characters, so that the
  test of bytes is the test of characters, which compares levels (`startsWith_iff`);
* `devicePrefix_eq_some_iff`: the prefix of a device is made of the first three levels;
* `prefixes_of_levels`: the order of topics, and a topic below the prefix of its device.
-/

namespace InstrumentBus

open Text

namespace Topic

variable {t u above : Topic} {name : String}

/-! ## Paths as bytes -/

/-- The bytes that the path of a topic is kept as. -/
def pathBytes (t : Topic) : List UInt8 := t.path.toUTF8.data.toList

/-- The test on the bytes of two paths: nothing is in front of all, a path is in front of itself,
and a longer path has to go on with a slash. -/
def startsWithBytes (t above : Topic) : Bool :=
  above.pathBytes == [] || t.pathBytes == above.pathBytes ||
    (above.pathBytes.length < t.pathBytes.length && above.pathBytes.isPrefixOf t.pathBytes &&
      t.pathBytes[above.pathBytes.length]? == some '/'.toUInt8)

theorem pathBytes_eq (t : Topic) : t.pathBytes = t.pathChars.flatMap String.utf8EncodeChar := by
  unfold pathBytes path
  rw [String.toUTF8_eq_toByteArray, String.toByteArray_ofList, List.utf8Encode,
    List.toList_data_toByteArray]

/-- No character starts in the middle of another: the bytes go on as the characters do. -/
theorem bytes_prefix_iff {cs ds : List Char} :
    cs.flatMap String.utf8EncodeChar <+: ds.flatMap String.utf8EncodeChar ↔ cs <+: ds := by
  constructor
  · rintro ⟨rest, hrest⟩
    refine List.isPrefix_of_utf8Encode_append_eq_utf8Encode rest.toByteArray ?_
    rw [List.utf8Encode, List.utf8Encode, ← List.toByteArray_append, hrest]
  · rintro ⟨rest, rfl⟩
    rw [List.flatMap_append]
    exact List.prefix_append _ _

theorem bytes_injective {cs ds : List Char}
    (h : cs.flatMap String.utf8EncodeChar = ds.flatMap String.utf8EncodeChar) : cs = ds := by
  have hfront : cs <+: ds := bytes_prefix_iff.mp (by rw [h])
  have hback : ds <+: cs := bytes_prefix_iff.mp (by rw [h])
  exact hfront.eq_of_length (hfront.length_le.antisymm hback.length_le)

/-- What goes on with a given entry behind some others. -/
theorem concat_prefix_iff {α : Type} {xs ys : List α} {x : α} :
    xs ++ [x] <+: ys ↔ xs <+: ys ∧ ys[xs.length]? = some x := by
  constructor
  · rintro ⟨rest, rfl⟩
    rw [List.append_assoc]
    exact ⟨List.prefix_append _ _, by simp⟩
  · rintro ⟨⟨rest, rfl⟩, hx⟩
    rw [List.getElem?_append_right le_rfl, Nat.sub_self, ← List.head?_eq_getElem?] at hx
    obtain ⟨rest', rfl⟩ := List.head?_eq_some_iff.mp hx
    rw [List.prefix_append_right_inj]
    exact ⟨rest', rfl⟩

/-- The test of bytes is the test of characters. -/
theorem startsWithBytes_eq (t above : Topic) : t.startsWithBytes above = t.startsWith above := by
  have hslash : ['/'].flatMap String.utf8EncodeChar = ['/'.toUInt8] := by decide
  have hbelow : above.pathBytes ++ ['/'.toUInt8] <+: t.pathBytes ↔
      above.pathChars ++ ['/'] <+: t.pathChars := by
    rw [pathBytes_eq, pathBytes_eq, ← hslash, ← List.flatMap_append, bytes_prefix_iff]
  have hroot : above.pathBytes = [] ↔ above.pathChars = [] := by
    rw [pathBytes_eq]
    exact ⟨fun h => bytes_injective h, fun h => by rw [h]; rfl⟩
  have hsame : t.pathBytes = above.pathBytes ↔ t.pathChars = above.pathChars := by
    rw [pathBytes_eq, pathBytes_eq]
    exact ⟨bytes_injective, fun h => by rw [h]⟩
  rw [concat_prefix_iff, concat_prefix_iff] at hbelow
  rw [Bool.eq_iff_iff]
  unfold startsWithBytes startsWith
  simp only [Bool.or_eq_true, Bool.and_eq_true, beq_iff_eq, decide_eq_true_eq,
    List.isPrefixOf_iff_prefix, List.head?_drop, hroot, hsame, ← hbelow]
  -- a byte behind the front leaves no doubt that the path is longer
  refine or_congr_right ⟨fun h => ⟨h.1.2, h.2⟩, fun h => ⟨⟨?_, h.1⟩, h.2⟩⟩
  exact (List.getElem?_eq_some_iff.mp h.2).1

/-! ## The prefix of a device -/

/-- The prefix of a device is made of the first three levels, and neither a command nor a topic of
the driver has one. -/
theorem devicePrefix_eq_some_iff :
    t.devicePrefix = some name ↔
      3 ≤ t.segments.length ∧ t.text.toList.head? ≠ some '_' ∧ t.text.toList.head? ≠ some '@' ∧
        name = String.intercalate "/" (t.segments.take 3) := by
  have hcut : (takeLevels 2 t.pathChars).map String.ofList =
      if 3 ≤ t.segments.length then some (String.intercalate "/" (t.segments.take 3))
      else none := by
    rw [takeLevels_eq]
    by_cases hroot : t.pathChars = []
    · rw [segments_of_root hroot, hroot]
      rfl
    · rw [segments_eq hroot, List.length_map, ← List.map_take, intercalate_map_ofList]
      by_cases hlength : 2 < (pieces '/' t.pathChars).length
      · rw [if_pos hlength, if_pos (Nat.succ_le_of_lt hlength)]
        rfl
      · rw [if_neg hlength, if_neg (by omega)]
        rfl
  unfold devicePrefix isLocal isDriver
  rw [hcut]
  show _ ↔ _ ∧ t.chars.head? ≠ some '_' ∧ t.chars.head? ≠ some '@' ∧ _
  by_cases hlocal : t.chars.head? = some '_'
  · simp [hlocal]
  by_cases hdriver : t.chars.head? = some '@'
  · simp [hdriver]
  by_cases hlength : 3 ≤ t.segments.length
  · simp only [hlocal, hdriver, hlength, beq_eq_false_iff_ne.mpr hlocal,
      beq_eq_false_iff_ne.mpr hdriver, Bool.or_self, Bool.false_eq_true, if_true, if_false,
      ne_eq, not_false_eq_true, true_and, Option.some.injEq]
    exact eq_comm
  · simp [hlength]

/-- The prefix of a device is the name of a topic, which the topics of the device start with and
which is its own prefix. -/
theorem exists_of_devicePrefix (h : t.devicePrefix = some name) :
    ∃ d, parse name = .ok d ∧ d.text = name ∧ t.startsWith d ∧ d.devicePrefix = some name := by
  obtain ⟨hlength, hlocal, hdriver, hname⟩ := devicePrefix_eq_some_iff.mp h
  obtain ⟨above, habove⟩ := exists_of_prefix (List.take_prefix 3 t.segments)
  have hsegments : above.withoutSuffix.segments = t.segments.take 3 := by
    rw [segments_withoutSuffix, habove]
  have htext : above.withoutSuffix.text = name := by
    rw [hname, ← habove, intercalate_segments]
    rfl
  have hparse : parse name = .ok above.withoutSuffix := by
    rw [← htext]
    exact parse_text _
  have hbelow : above.withoutSuffix.segments <+: t.segments := by
    rw [hsegments]
    exact List.take_prefix 3 t.segments
  have hne : above.withoutSuffix.segments ≠ [] := by
    rw [hsegments]
    exact List.ne_nil_of_length_pos (by rw [List.length_take]; omega)
  have hhead : t.text.toList.head? = above.withoutSuffix.text.toList.head? :=
    head?_chars_of_prefix hne hbelow
  rw [hhead] at hlocal hdriver
  refine ⟨above.withoutSuffix, hparse, htext, startsWith_iff.mpr hbelow, ?_⟩
  refine devicePrefix_eq_some_iff.mpr ⟨?_, hlocal, hdriver, ?_⟩
  · rw [hsegments, List.length_take]
    omega
  · rw [hsegments, List.take_take, hname, Nat.min_self]

/-! ## The order of topics -/

/-- One topic starts with another just if it does so byte by byte, which is just if the levels of
the other are its first levels. This is an order of paths. A topic has the prefix of a device just if
it has three levels or more and is neither a command nor a topic of the driver; the prefix is the
text of the first three levels. It is read as a topic that the topic starts with and that has itself
as its prefix. -/
theorem prefixes_of_levels :
    (∀ t above : Topic, t.startsWith above = t.startsWithBytes above ∧
        (t.startsWith above = true ↔ above.segments <+: t.segments)) ∧
      (∀ t : Topic, t.startsWith t = true) ∧
      (∀ t u v : Topic, t.startsWith u = true → u.startsWith v = true → t.startsWith v = true) ∧
      (∀ t u : Topic, t.startsWith u = true → u.startsWith t = true → t.path = u.path) ∧
      (∀ (t : Topic) (name : String), t.devicePrefix = some name ↔
        3 ≤ t.segments.length ∧ t.text.toList.head? ≠ some '_' ∧ t.text.toList.head? ≠ some '@' ∧
          name = String.intercalate "/" (t.segments.take 3)) ∧
      ∀ (t : Topic) (name : String), t.devicePrefix = some name →
        ∃ d, parse name = .ok d ∧ d.text = name ∧ t.startsWith d = true ∧
          d.devicePrefix = some name := by
  refine ⟨fun t above => ⟨(startsWithBytes_eq t above).symm, startsWith_iff⟩, fun t => ?_,
    fun t u v htu huv => ?_, fun t u htu hut => ?_, fun t name => devicePrefix_eq_some_iff,
    fun t name h => exists_of_devicePrefix h⟩
  · exact startsWith_iff.mpr (List.prefix_refl _)
  · exact startsWith_iff.mpr ((startsWith_iff.mp huv).trans (startsWith_iff.mp htu))
  · have hfront := startsWith_iff.mp htu
    have hback := startsWith_iff.mp hut
    have hlength := hback.length_le.antisymm hfront.length_le
    exact path_eq_iff.mpr (hback.eq_of_length hlength)

/-- A setting of a device, its return code, the group above and the device. -/
theorem prefixes_of_levels_of_setting :
    let t : Topic := ⟨"u/js220/000415/s/i/range", rfl⟩
    let answered : Topic := ⟨"u/js220/000415/s/i/range#", rfl⟩
    let group : Topic := ⟨"u/js220/000415/s", rfl⟩
    (t.startsWith answered = true ∧ answered.startsWith t = true ∧ answered.path = t.path) ∧
      t.startsWith group = true ∧ group.devicePrefix = some "u/js220/000415" ∧
        ∃ d, parse "u/js220/000415" = .ok d ∧ d.text = "u/js220/000415" ∧
          group.startsWith d = true ∧ d.devicePrefix = some "u/js220/000415" ∧
            t.startsWith d = true := by
  intro t answered group
  have hto : t.startsWith answered = true := by decide +kernel
  have hfrom : answered.startsWith t = true := by decide +kernel
  have hgroup : t.startsWith group = true := by decide +kernel
  have hown : group.devicePrefix = some "u/js220/000415" := by decide +kernel
  obtain ⟨-, -, htrans, hantisymm, -, hdevice⟩ := prefixes_of_levels
  obtain ⟨d, hparse, htext, hbelow, hself⟩ := hdevice group _ hown
  exact ⟨⟨hto, hfrom, hantisymm answered t hfrom hto⟩, hgroup, hown, d, hparse, htext, hbelow,
    hself, htrans t group d hgroup hbelow⟩

end Topic
end InstrumentBus
