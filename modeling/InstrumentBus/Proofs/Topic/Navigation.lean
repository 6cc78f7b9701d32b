import Mathlib
import InstrumentBus.Proofs.Topic.Grammar

/-!
# Up and down a path

`join` writes a new text and reads it as a whole, `parent` and `lastSegment` cut the old one. They
undo one another because both change the list of levels at its end:

* `join_eq_ok_iff`: what `join` reads has the levels of the topic and one more;
* `parent_eq_some_iff`: what `parent` leaves are all levels but the last;
* `map_segments_ancestor?`: so `n` steps up leave all levels but `n`;
* `navigation_roundTrip`: the three together.
-/

namespace InstrumentBus

open Text

namespace Topic

variable {t above j top : Topic} {level s : String} {levels : List String} {cs : List Char}
  {n : Nat}

/-! ## Texts of levels -/

/-- What stands in front of a text does not change what it ends in. -/
theorem splitSuffix_append (front : List Char) (hne : cs ≠ []) :
    splitSuffix (front ++ cs) = (front ++ (splitSuffix cs).1, (splitSuffix cs).2) := by
  have hlast : (front ++ cs).getLast? = cs.getLast? := List.getLast?_append_of_ne_nil front hne
  unfold splitSuffix
  rw [hlast]
  cases cs.getLast?.bind TopicSuffix.ofChar? with
  | none => rfl
  | some m => rw [List.dropLast_append_of_ne_nil hne]

/-- The text in front of one more level. -/
def frontOf (levels : List String) : String :=
  if levels = [] then "" else String.intercalate "/" levels ++ "/"

theorem intercalate_concat_eq (levels : List String) (level : String) :
    String.intercalate "/" (levels ++ [level]) = frontOf levels ++ level := by
  apply String.toList_injective
  unfold frontOf
  rw [String.toList_intercalate, List.map_append, List.map_singleton]
  by_cases hnil : levels = []
  · rw [if_pos hnil, hnil]
    simp
  · have hne : levels.map String.toList ≠ [] := by simpa using hnil
    rw [if_neg hnil, show "/".toList = ['/'] from rfl, intercalate_concat hne, String.toList_append,
      String.toList_append, String.toList_intercalate]
    simp

/-- Levels without slashes are those of any topic that has them as its path. -/
theorem segments_eq_of_path (hlevels : ∀ level ∈ levels, level ≠ "" ∧ '/' ∉ level.toList)
    (h : t.path = String.intercalate "/" levels) : t.segments = levels := by
  have hchars : t.pathChars = List.intercalate ['/'] (levels.map String.toList) := by
    have hlist := congrArg String.toList h
    rw [path, String.toList_ofList, String.toList_intercalate] at hlist
    exact hlist
  by_cases hnil : levels = []
  · rw [hnil] at hchars ⊢
    exact segments_of_root hchars
  · have hpieces : pieces '/' t.pathChars = levels.map String.toList := by
      rw [hchars]
      refine pieces_intercalate (by simpa using hnil) ?_
      exact List.forall_mem_map.mpr fun level hlevel => (hlevels level hlevel).2
    have hne : t.pathChars ≠ [] := by
      intro hroot
      -- the only piece would be empty, but no level is
      rw [hroot] at hpieces
      have hempty : [] ∈ levels.map String.toList := hpieces ▸ List.mem_singleton_self []
      obtain ⟨level, hlevel, htext⟩ := List.mem_map.mp hempty
      exact (hlevels level hlevel).1 (String.toList_eq_nil_iff.mp htext)
    rw [segments_eq hne, hpieces, List.map_map]
    simp [Function.comp_def]

theorem of_mem_segments (h : level ∈ t.segments) : level ≠ "" ∧ '/' ∉ level.toList := by
  obtain ⟨p, hp, rfl⟩ := List.mem_map.mp h
  obtain ⟨hpiece, hne⟩ := List.mem_filter.mp hp
  rw [String.toList_ofList]
  exact ⟨by simpa using hne, notMem_of_mem_pieces hpiece⟩

/-! ## One level down -/

/-- What `join` reads. -/
theorem join_eq_parse (t : Topic) (level : String) :
    t.join level = parse (frontOf t.segments ++ level) := by
  unfold join frontOf
  rw [intercalate_segments]
  simp only [segments_eq_nil_iff]
  split
  · rw [String.empty_append]
  · rfl

/-- A text that does not end in a slash is read as it is. -/
theorem cutLast_slash_of_getLast? (h : s.toList.getLast? ≠ some '/') : cutLast ['/'] s = s := by
  rw [← ofList_stripSlash, stripSlash, if_neg h, String.ofList_toList]

/-- A topic read by `join` has the levels of the one above it and one more, and the suffix of that
level; and if there is such a topic, it is read. -/
theorem join_eq_ok_iff (hslash : '/' ∉ level.toList) (hlevel : (splitSuffix level.toList).1 ≠ []) :
    t.join level = .ok j ↔
      j.segments = t.segments ++ [.ofList (splitSuffix level.toList).1] ∧
        j.suffix = (splitSuffix level.toList).2 := by
  have hne : level.toList ≠ [] := fun hnil => hlevel (by rw [hnil]; rfl)
  have hlast : (frontOf t.segments ++ level).toList.getLast? ≠ some '/' := by
    rw [String.toList_append, List.getLast?_append_of_ne_nil _ hne]
    exact fun h => hslash (List.mem_of_getLast? h)
  have hpath : String.intercalate "/" (t.segments ++ [.ofList (splitSuffix level.toList).1]) =
      frontOf t.segments ++ .ofList (splitSuffix level.toList).1 := intercalate_concat_eq _ _
  rw [join_eq_parse, parse_eq_ok_iff, cutLast_slash_of_getLast? hlast]
  constructor
  · intro htext
    have hsplit : splitSuffix j.chars = ((frontOf t.segments).toList ++
        (splitSuffix level.toList).1, (splitSuffix level.toList).2) := by
      rw [chars, htext, String.toList_append, splitSuffix_append _ hne]
    refine ⟨segments_eq_of_path ?_ ?_, by rw [suffix, hsplit]⟩
    · intro l hl
      rcases List.mem_append.mp hl with hl | hl
      · exact of_mem_segments hl
      · rw [List.mem_singleton.mp hl, String.toList_ofList]
        refine ⟨fun hempty => hlevel (String.ofList_eq_empty_iff.mp hempty), fun hmem => hslash ?_⟩
        rw [← append_splitSuffix level.toList]
        exact List.mem_append_left _ hmem
    · rw [hpath, path, pathChars, hsplit, String.ofList_append, String.ofList_toList]
  · rintro ⟨hsegments, hsuffix⟩
    rw [text_eq_path_append, ← intercalate_segments, hsegments, hpath, hsuffix, String.append_assoc,
      ← String.ofList_append, append_splitSuffix, String.ofList_toList]

/-! ## One level up -/

/-- One topic is above another if it has all its levels but the last, and no suffix. -/
theorem parent_eq_some_iff :
    t.parent = some above ↔
      above.segments ++ [t.lastSegment] = t.segments ∧ above.suffix = none := by
  unfold parent
  by_cases hroot : t.pathChars = []
  · rw [if_pos hroot, segments_of_root hroot]
    simp
  · have hsplit : t.segments.dropLast ++ [t.lastSegment] = t.segments :=
      List.dropLast_append_getLast? _ (getLast?_segments hroot)
    rw [if_neg hroot, Option.some.injEq]
    constructor
    · rintro rfl
      rw [segments_ofPath_parentChars]
      exact ⟨hsplit, suffix_ofPath t.isPath_parentChars⟩
    · rintro ⟨hsegments, hsuffix⟩
      refine eq_of_segments ?_ ((suffix_ofPath t.isPath_parentChars).trans hsuffix.symm)
      rw [segments_ofPath_parentChars, ← hsegments, List.dropLast_concat]

theorem exists_parent (h : t.path ≠ "") : ∃ above, t.parent = some above := by
  unfold parent
  rw [if_neg (mt path_eq_empty_iff.mpr h)]
  exact ⟨_, rfl⟩

/-- The last level brings the topic back from the one above it. -/
theorem join_lastSegment (h : t.parent = some above) :
    above.join t.lastSegment = .ok t.withoutSuffix := by
  have hpath : frontOf above.segments ++ t.lastSegment = t.path := by
    rw [← intercalate_concat_eq, (parent_eq_some_iff.mp h).1, intercalate_segments]
  rw [join_eq_parse, hpath, parse_path]

/-- The topic above one that `join` read is the one it was joined to. -/
theorem parent_of_join (hslash : '/' ∉ level.toList) (hlevel : (splitSuffix level.toList).1 ≠ [])
    (h : t.join level = .ok j) : j.parent = some t.withoutSuffix := by
  have hsegments := ((join_eq_ok_iff hslash hlevel).mp h).1
  refine parent_eq_some_iff.mpr ⟨?_, suffix_ofPath t.isPath⟩
  have hne : j.pathChars ≠ [] := by
    intro hroot
    rw [segments_of_root hroot] at hsegments
    exact List.append_ne_nil_of_right_ne_nil _ (List.cons_ne_nil _ _) hsegments.symm
  have hlast := getLast?_segments hne
  rw [hsegments, List.getLast?_concat, Option.some.injEq] at hlast
  rw [segments_withoutSuffix, hsegments, hlast]

/-! ## All the way up -/

/-- The topic that some steps up lead to. -/
def ancestor? (t : Topic) : Nat → Option Topic
  | 0 => some t
  | n + 1 => t.parent.bind (·.ancestor? n)

theorem map_segments_parent (t : Topic) :
    t.parent.map segments = if t.segments = [] then none else some t.segments.dropLast := by
  unfold parent
  simp only [segments_eq_nil_iff]
  split
  · rfl
  · rw [Option.map_some, segments_ofPath_parentChars]

/-- Every step up takes one level away, as long as there are any. -/
theorem map_segments_ancestor? (t : Topic) (n : Nat) :
    (t.ancestor? n).map segments =
      if n ≤ t.segments.length then some (t.segments.take (t.segments.length - n)) else none := by
  induction n generalizing t with
  | zero => simp [ancestor?]
  | succ n ih =>
    have hparent := map_segments_parent t
    unfold ancestor?
    cases habove : t.parent with
    | none =>
      rw [habove] at hparent
      have hnil : t.segments = [] := by
        by_contra hne
        rw [if_neg hne] at hparent
        cases hparent
      rw [hnil]
      rfl
    | some above =>
      rw [habove] at hparent
      have hne : t.segments ≠ [] := by
        intro hnil
        rw [if_pos hnil] at hparent
        cases hparent
      rw [if_neg hne, Option.map_some, Option.some.injEq] at hparent
      have hpos := List.length_pos_iff.mpr hne
      rw [Option.bind_some, ih, hparent, List.length_dropLast, List.dropLast_eq_take,
        List.take_take]
      by_cases hn : n + 1 ≤ t.segments.length
      · rw [if_pos (by omega), if_pos hn]
        congr 2
        omega
      · rw [if_neg (by omega), if_neg hn]

/-- The steps up end at the empty path, after as many as there are levels. -/
theorem ancestor?_root_iff :
    (∃ top, t.ancestor? n = some top ∧ top.path = "") ↔ n = t.segments.length := by
  have hsegments := map_segments_ancestor? t n
  constructor
  · rintro ⟨top, htop, hpath⟩
    rw [htop, Option.map_some, path_eq_empty_iff_segments.mp hpath] at hsegments
    split at hsegments
    · rename_i hle
      have hlength := congrArg List.length (Option.some.inj hsegments)
      rw [List.length_take, List.length_nil] at hlength
      omega
    · cases hsegments
  · rintro rfl
    rw [if_pos le_rfl, Nat.sub_self, List.take_zero] at hsegments
    obtain ⟨top, htop, hnil⟩ := Option.map_eq_some_iff.mp hsegments
    exact ⟨top, htop, path_eq_empty_iff_segments.mpr hnil⟩

theorem ancestor?_eq_none_iff : t.ancestor? n = none ↔ t.segments.length < n := by
  rw [← Option.map_eq_none_iff, map_segments_ancestor?]
  by_cases hn : n ≤ t.segments.length
  · rw [if_pos hn]
    exact ⟨fun h => (Option.some_ne_none _ h).elim, fun h => absurd hn (Nat.not_le.mpr h)⟩
  · rw [if_neg hn]
    exact ⟨fun _ => Nat.not_le.mp hn, fun _ => rfl⟩

theorem suffix_of_ancestor? (h : t.ancestor? n = some top) :
    n = 0 ∧ top = t ∨ top.suffix = none := by
  induction n generalizing t with
  | zero => exact Or.inl ⟨rfl, (Option.some.inj h).symm⟩
  | succ n ih =>
    obtain ⟨above, habove, htop⟩ := Option.bind_eq_some_iff.mp h
    refine Or.inr ?_
    rcases ih htop with ⟨-, rfl⟩ | hsuffix
    · exact (parent_eq_some_iff.mp habove).2
    · exact hsuffix

/-- Only a name that is nothing but a suffix has the empty path and is not the root. -/
theorem ancestor?_eq_root_iff (h : t.path ≠ "" ∨ t.suffix = none) :
    t.ancestor? n = some root ↔ n = t.segments.length := by
  rw [← ancestor?_root_iff]
  constructor
  · intro htop
    exact ⟨root, htop, rfl⟩
  · rintro ⟨top, htop, hpath⟩
    have hsuffix : top.suffix = none := by
      rcases suffix_of_ancestor? htop with ⟨-, rfl⟩ | hsuffix
      · exact h.resolve_left (not_not.mpr hpath)
      · exact hsuffix
    have hroot : top = root := eq_of_segments (path_eq_empty_iff_segments.mp hpath) hsuffix
    rw [htop, hroot]

/-- Where the path of a topic is not empty, `parent` and `join` with the last level lead up and back
down again, and the levels are those of the parent and the last one. Where `join` adds one level
with or without a suffix, `parent` takes it away again and the suffix is that of the level. As many
steps up as there are levels lead to the empty path, no others do, and there are no more; this is the
root itself but for a name that is nothing but a suffix, which has no levels. -/
theorem navigation_roundTrip :
    (∀ t : Topic, t.path ≠ "" → ∃ above, t.parent = some above ∧
        above.join t.lastSegment = .ok t.withoutSuffix ∧
        t.segments = above.segments ++ [t.lastSegment]) ∧
      (∀ (t j : Topic) (level : String), '/' ∉ level.toList → (splitSuffix level.toList).1 ≠ [] →
        t.join level = .ok j →
          j.parent = some t.withoutSuffix ∧ j.suffix = (splitSuffix level.toList).2) ∧
      ∀ (t : Topic) (n : Nat),
        ((∃ top, t.ancestor? n = some top ∧ top.path = "") ↔ n = t.segments.length) ∧
        (t.path ≠ "" ∨ t.suffix = none → (t.ancestor? n = some root ↔ n = t.segments.length)) ∧
        (t.ancestor? n = none ↔ t.segments.length < n) := by
  refine ⟨fun t hpath => ?_, fun t j level hslash hlevel hjoin => ?_, fun t n => ?_⟩
  · obtain ⟨above, habove⟩ := exists_parent hpath
    exact ⟨above, habove, join_lastSegment habove, (parent_eq_some_iff.mp habove).1.symm⟩
  · exact ⟨parent_of_join hslash hlevel hjoin, ((join_eq_ok_iff hslash hlevel).mp hjoin).2⟩
  · exact ⟨ancestor?_root_iff, ancestor?_eq_root_iff, ancestor?_eq_none_iff⟩

/-- From a return code one level up and back, down to a question, and up to the root. -/
theorem navigation_roundTrip_of_setting :
    let t : Topic := ⟨"u/js220/s#", rfl⟩
    let question : Topic := ⟨"u/js220/s/range&", rfl⟩
    (∃ above, t.parent = some above ∧ above.join t.lastSegment = .ok t.withoutSuffix ∧
        t.segments = above.segments ++ [t.lastSegment]) ∧
      (t.join "range&" = .ok question ∧ question.parent = some t.withoutSuffix ∧
        question.suffix = some .queryReq) ∧
      t.ancestor? 3 = some root := by
  intro t question
  have hpath : t.path ≠ "" := by decide +kernel
  have hjoin : t.join "range&" = .ok question := by decide +kernel
  have hlevel : (splitSuffix "range&".toList).1 ≠ [] := by decide +kernel
  have hlength : 3 = t.segments.length := by decide +kernel
  obtain ⟨hup, hdown, hall⟩ := navigation_roundTrip
  obtain ⟨hparent, hsuffix⟩ := hdown t question "range&" (by decide +kernel) hlevel hjoin
  exact ⟨hup t hpath, ⟨hjoin, hparent, hsuffix⟩, ((hall t 3).2.1 (Or.inl hpath)).mpr hlength⟩

end Topic
end InstrumentBus
