import Mathlib
import InstrumentBus.Proofs.Dispatch.Alike

/-!
# The grammar of topic names

`Topic.parse` goes through a text from the left and stops at the first fault. Here its language is
said without the checks: a path is a list of levels with slashes between them (`IsPathName`), and a
name is a path with one suffix character behind it or none.

* `exists_parse_iff`: exactly these names are read, after one trailing slash is cut off;
* `parse_text`: what was read, or made from other topics, is read again as it is;
* `parse_grammar`: both together, and that no topic is ever without a node in the tree of the bus.
-/

namespace InstrumentBus

open Text

/-- The bytes of a text are those of its characters. -/
theorem Text.utf8ByteSize_ofList (cs : List Char) :
    (String.ofList cs).utf8ByteSize = byteLength cs := by
  induction cs with
  | nil => simp
  | cons c cs ih =>
    rw [← List.singleton_append, String.ofList_append, String.utf8ByteSize_append, ih,
      ← String.singleton_eq_ofList, String.utf8ByteSize_singleton]
    rfl

namespace Topic

variable {s : String} {t : Topic} {cs : List Char}

/-! ## Names and paths -/

/-- A text without its last character, if that is one of some. -/
def cutLast (marks : List Char) (s : String) : String :=
  match s.toList.getLast? with
  | some c => if c ∈ marks then .ofList s.toList.dropLast else s
  | none => s

/-- The characters that say what a name announces. -/
def suffixChars : List Char := ['%', '$', '&', '?', '#']

/-- A level of a path: a text of one to seven bytes without reserved characters. -/
def IsLevel (level : String) : Prop :=
  level ≠ "" ∧ level.utf8ByteSize ≤ 7 ∧
    ∀ c ∈ level.toList, c ∉ ['/', '?', '#', '$', '\'', '"', '\\', '`', '&', '@', '%']

/-- A path: the empty text, or levels with slashes between them, of which the first may be `@`. It
takes 62 bytes at most. -/
def IsPathName (path : String) : Prop :=
  path.utf8ByteSize ≤ 62 ∧
    (path = "" ∨ ∃ first rest, path = String.intercalate "/" (first :: rest) ∧
      (first = "@" ∨ IsLevel first) ∧ ∀ level ∈ rest, IsLevel level)

theorem ofList_stripSlash (s : String) : String.ofList (stripSlash s.toList) = cutLast ['/'] s := by
  unfold stripSlash cutLast
  cases hlast : s.toList.getLast? with
  | none => simp
  | some c =>
    by_cases hc : c = '/'
    · simp [hc]
    · simp [hc]

theorem mem_suffixChars_iff {c : Char} : c ∈ suffixChars ↔ (TopicSuffix.ofChar? c).isSome := by
  unfold suffixChars TopicSuffix.ofChar?
  repeat' split
  all_goals simp_all

theorem ofList_splitSuffix (name : String) :
    String.ofList (splitSuffix name.toList).1 = cutLast suffixChars name := by
  unfold splitSuffix cutLast
  cases hlast : name.toList.getLast? with
  | none => simp
  | some c =>
    simp only [Option.bind_some, mem_suffixChars_iff]
    cases TopicSuffix.ofChar? c <;> simp

/-! ## Levels -/

theorem isSegment_false_iff : IsSegment false cs ↔ IsLevel (.ofList cs) := by
  unfold IsSegment IsLevel
  rw [utf8ByteSize_ofList, String.toList_ofList]
  simp [maxSegmentLength, reserved]

/-- Only as the first level the name of the driver will do. -/
theorem isSegment_true_iff : IsSegment true cs ↔ String.ofList cs = "@" ∨ IsLevel (.ofList cs) := by
  have hdriver : String.ofList cs = "@" ↔ cs = driverSegment :=
    ⟨fun h => String.ofList_injective h, fun h => congrArg String.ofList h⟩
  rw [← isSegment_false_iff, hdriver]
  unfold IsSegment
  constructor
  · rintro ⟨hne, hlength, ⟨-, heq⟩ | hchars⟩
    · exact Or.inl heq
    · exact Or.inr ⟨hne, hlength, Or.inr hchars⟩
  · rintro (rfl | ⟨hne, hlength, ⟨hfirst, -⟩ | hchars⟩)
    · exact ⟨by decide, by decide, Or.inl ⟨rfl, rfl⟩⟩
    · cases hfirst
    · exact ⟨hne, hlength, Or.inr hchars⟩

theorem areSegments_false_iff {segments : List (List Char)} :
    AreSegments false segments ↔ ∀ level ∈ segments.map String.ofList, IsLevel level := by
  induction segments with
  | nil => simp [AreSegments]
  | cons p ps ih => rw [AreSegments, ih, isSegment_false_iff, List.map_cons, List.forall_mem_cons]

theorem IsLevel.slash_notMem {level : String} (h : IsLevel level) : '/' ∉ level.toList :=
  fun hslash => h.2.2 '/' hslash (by decide)

/-- The check of a path accepts the paths of the grammar. -/
theorem isPath_iff : IsPath cs ↔ IsPathName (.ofList cs) := by
  unfold IsPath IsPathName
  rw [utf8ByteSize_ofList, String.ofList_eq_empty_iff]
  refine and_congr_right fun _ => or_congr_right ?_
  constructor
  · intro h
    obtain ⟨p, ps, hpieces⟩ := List.exists_cons_of_ne_nil (pieces_ne_nil '/' cs)
    rw [hpieces] at h
    refine ⟨.ofList p, ps.map .ofList, ?_, isSegment_true_iff.mp h.1, areSegments_false_iff.mp h.2⟩
    rw [← List.map_cons, ← hpieces, intercalate_map_ofList, intercalate_pieces]
  · rintro ⟨first, rest, hpath, hfirst, hrest⟩
    have hcs : cs = List.intercalate ['/'] ((first :: rest).map String.toList) := by
      have hlist := congrArg String.toList hpath
      rw [String.toList_ofList, String.toList_intercalate] at hlist
      exact hlist
    -- no level has a slash, so that the levels are the pieces of the path
    have hpieces : pieces '/' cs = (first :: rest).map String.toList := by
      rw [hcs]
      refine pieces_intercalate (List.cons_ne_nil _ _) ?_
      simp only [List.forall_mem_map, List.forall_mem_cons]
      refine ⟨?_, fun level hlevel => (hrest level hlevel).slash_notMem⟩
      rcases hfirst with rfl | hfirst
      · decide
      · exact hfirst.slash_notMem
    rw [hpieces, List.map_cons]
    refine ⟨isSegment_true_iff.mpr ?_, areSegments_false_iff.mpr ?_⟩
    · rwa [String.ofList_toList]
    · simpa [List.map_map, Function.comp_def] using hrest

/-! ## Reading names -/

theorem parse_eq_ok_iff : parse s = .ok t ↔ t.text = cutLast ['/'] s := by
  rw [← ofList_stripSlash]
  constructor
  · intro h
    unfold parse at h
    simp only at h
    split at h
    · cases h
      rfl
    · cases h
  · intro h
    -- a topic comes with the check of its text
    have hcheck := t.checked
    rw [h] at hcheck
    rw [parse_of_check rfl hcheck]
    cases t
    cases h
    rfl

/-- Exactly the names of the grammar are read. -/
theorem exists_parse_iff :
    (∃ t, parse s = .ok t) ↔ IsPathName (cutLast suffixChars (cutLast ['/'] s)) := by
  rw [← ofList_splitSuffix, ← isPath_iff, ← check_eq_ok_iff]
  constructor
  · rintro ⟨t, ht⟩
    rw [← parse_eq_ok_iff.mp ht]
    exact t.checked
  · intro h
    exact ⟨⟨_, h⟩, parse_eq_ok_iff.mpr rfl⟩

/-- No topic ends in a slash. -/
theorem cutLast_slash_text (t : Topic) : cutLast ['/'] t.text = t.text := by
  rw [← ofList_stripSlash]
  show String.ofList (stripSlash t.chars) = t.text
  suffices hstrip : stripSlash t.chars = t.chars by
    rw [hstrip]
    exact String.ofList_toList
  rw [chars_eq]
  cases hsuffix : t.suffix with
  | none =>
    rw [Option.map_none, Option.toList_none, List.append_nil]
    exact t.stripSlash_pathChars
  | some m =>
    have hne : m.toChar ≠ '/' := by cases m <;> decide
    simp [stripSlash, hne]

/-- A topic is read again as it is. -/
theorem parse_text (t : Topic) : parse t.text = .ok t := parse_eq_ok_iff.mpr t.cutLast_slash_text.symm

/-! ## What operations write -/

theorem text_withSuffix (t : Topic) (m : TopicSuffix) :
    (t.withSuffix m).text = t.path.push m.toChar := by
  apply String.toList_injective
  rw [String.toList_push, path, String.toList_ofList]
  exact String.toList_ofList

theorem utf8ByteSize_path (t : Topic) : t.path.utf8ByteSize ≤ maxPathLength := by
  rw [path, utf8ByteSize_ofList]
  exact t.isPath.1

theorem text_parent (t : Topic) :
    t.parent.map text =
      if t.path = "" then none else some (String.intercalate "/" t.segments.dropLast) := by
  unfold parent
  by_cases hroot : t.pathChars = []
  · rw [if_pos hroot, if_pos (path_eq_empty_iff.mpr hroot)]
    rfl
  · rw [if_neg hroot, if_neg (mt path_eq_empty_iff.mp hroot), Option.map_some]
    rw [segments_eq hroot, ← List.map_dropLast, intercalate_map_ofList]
    rfl

/-- Reading accepts the names of the grammar and no others, and keeps them as they are but for one
trailing slash. Every topic, whether it was read or made by an operation on topics, is read again as
itself, and so are its path and its path with any suffix, which stays within 63 bytes; its parent is
the path of all levels but the last. Therefore the bus finds a node for every topic, whatever its
state is, and a subscription is never refused. -/
theorem parse_grammar :
    (∀ s, (∃ t, parse s = .ok t) ↔ IsPathName (cutLast suffixChars (cutLast ['/'] s))) ∧
      (∀ s t, parse s = .ok t ↔ t.text = cutLast ['/'] s) ∧
      (∀ t : Topic, parse t.text = .ok t ∧ parse t.path = .ok t.withoutSuffix ∧
        t.withoutSuffix.text = t.path ∧
        (∀ m, parse (t.path.push m.toChar) = .ok (t.withSuffix m) ∧
          (t.withSuffix m).text.utf8ByteSize ≤ 63) ∧
        t.parent.map text =
          (if t.path = "" then none else some (String.intercalate "/" t.segments.dropLast)) ∧
        ∀ segment, t.join segment = parse (if t.path = "" then segment else t.path ++ "/" ++ segment)) ∧
      ∀ (b : Bus) (t : Topic), (∃ node b', b.nodeOf t = .ok (node, b')) ∧
        ∀ sub, (b.startSubscription t sub).1 = none := by
  refine ⟨fun s => exists_parse_iff, fun s t => parse_eq_ok_iff, fun t => ?_, fun b t => ?_⟩
  · refine ⟨t.parse_text, t.parse_path, rfl, fun m => ⟨?_, ?_⟩, t.text_parent, fun segment => ?_⟩
    · rw [← text_withSuffix]
      exact parse_text _
    · have hpath := t.utf8ByteSize_path
      rw [text_withSuffix, String.utf8ByteSize_push, TopicSuffix.utf8Size_toChar]
      exact Nat.succ_le_succ hpath
    · unfold join
      simp only [path_eq_empty_iff]
      split <;> rfl
  · refine ⟨⟨_, _, b.nodeOf_eq t⟩, fun sub => ?_⟩
    unfold Bus.startSubscription
    rw [b.nodeOf_eq t]
    simp only
    split <;> rfl

end Topic
end InstrumentBus
