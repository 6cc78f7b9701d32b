import Mathlib
import InstrumentBus.Topic

/-!
# Topics and their levels

Topics are compared, cut and put below one another as texts. Here all this is said of their levels:

* a topic is known by its levels and its suffix (`eq_of_segments`), and its path is read back as a
  topic of the same levels (`parse_path`, `segments_withoutSuffix`);
* one topic starts with another if its levels do (`startsWith_iff`);
* the prefix of a device is made of three levels, and a topic belongs to the device if it starts
  with these (`IsDevicePrefix.length_segments`, `IsDevicePrefix.devicePrefix_eq`).
-/

namespace InstrumentBus

open Text

/-! ## Pieces of texts -/

namespace Text

variable {sep : Char}

/-- A separator in the middle of a text is one between pieces. -/
theorem pieces_append_sep (front rest : List Char) :
    pieces sep (front ++ sep :: rest) = pieces sep front ++ pieces sep rest := by
  induction front with
  | nil => simp [pieces]
  | cons c front ih =>
    rw [List.cons_append, pieces, pieces, ih]
    split
    · rfl
    · cases hfront : pieces sep front with
      | nil => exact absurd hfront (pieces_ne_nil sep front)
      | cons p ps => rfl

theorem pieces_injective {cs cs' : List Char} (h : pieces sep cs = pieces sep cs') : cs = cs' := by
  rw [← intercalate_pieces sep cs, h, intercalate_pieces]

theorem intercalate_append {ps qs : List (List Char)} (hps : ps ≠ []) (hqs : qs ≠ []) :
    List.intercalate [sep] (ps ++ qs) =
      List.intercalate [sep] ps ++ sep :: List.intercalate [sep] qs := by
  induction ps with
  | nil => exact absurd rfl hps
  | cons p ps ih =>
    cases ps with
    | nil =>
      obtain ⟨q, qs, rfl⟩ := List.exists_cons_of_ne_nil hqs
      simp [List.intercalate_cons_cons]
    | cons r rs =>
      have hrest := ih (List.cons_ne_nil r rs)
      rw [List.cons_append] at hrest
      simp [List.intercalate_cons_cons, hrest]

/-- Texts are joined as their characters are. -/
theorem intercalate_map_ofList (ps : List (List Char)) :
    String.intercalate "/" (ps.map String.ofList) = String.ofList (List.intercalate ['/'] ps) := by
  apply String.toList_injective
  rw [String.toList_intercalate, List.map_map, String.toList_ofList]
  simp only [Function.comp_def, String.toList_ofList, List.map_id']

/-- The pieces of a text go on with other pieces if the text goes on behind a separator. -/
theorem pieces_prefix_iff {front cs : List Char} :
    pieces sep front <+: pieces sep cs ↔ cs = front ∨ ∃ rest, cs = front ++ sep :: rest := by
  constructor
  · rintro ⟨ps, hps⟩
    rcases List.eq_nil_or_concat ps with rfl | hne
    · rw [List.append_nil] at hps
      exact Or.inl (pieces_injective hps).symm
    · have hps' : ps ≠ [] := by
        obtain ⟨init, last, rfl⟩ := hne
        simp
      refine Or.inr ⟨List.intercalate [sep] ps, ?_⟩
      rw [← intercalate_pieces sep cs, ← hps, intercalate_append (pieces_ne_nil sep front) hps',
        intercalate_pieces]
  · rintro (rfl | ⟨rest, rfl⟩)
    · exact List.prefix_refl _
    · rw [pieces_append_sep]
      exact List.prefix_append _ _

end Text

namespace Topic

/-! ## Path and suffix -/

/-- A name is what stands in front of its suffix and the character of the suffix. -/
theorem append_splitSuffix (cs : List Char) :
    (splitSuffix cs).1 ++ ((splitSuffix cs).2.map TopicSuffix.toChar).toList = cs := by
  unfold splitSuffix
  split
  · rename_i s hs
    obtain ⟨c, hc, hs⟩ := Option.bind_eq_some_iff.mp hs
    obtain ⟨front, hfront⟩ := List.getLast?_eq_some_iff.mp hc
    rw [hfront, List.dropLast_concat, Option.map_some, TopicSuffix.toChar_of_ofChar? hs]
    rfl
  · simp

theorem chars_eq (t : Topic) : t.chars = t.pathChars ++ (t.suffix.map TopicSuffix.toChar).toList :=
  (append_splitSuffix t.chars).symm

/-- The text of a topic is its path and the character of its suffix. -/
theorem text_eq_path_append (t : Topic) :
    t.text = t.path ++ String.ofList (t.suffix.map TopicSuffix.toChar).toList := by
  apply String.toList_injective
  rw [String.toList_append, path, String.toList_ofList, String.toList_ofList]
  exact t.chars_eq

theorem withSuffix_of_suffix {t : Topic} {s : TopicSuffix} (h : t.suffix = some s) :
    (t.withSuffix s).text = t.text := by
  have hchars := t.chars_eq
  rw [h] at hchars
  show String.ofList (t.pathChars ++ [s.toChar]) = t.text
  rw [show t.pathChars ++ [s.toChar] = t.text.toList from hchars.symm, String.ofList_toList]

theorem pathChars_eq_of_withSuffix {t t' : Topic} {s : TopicSuffix}
    (h : (t.withSuffix s).text = (t'.withSuffix s).text) : t.pathChars = t'.pathChars := by
  have hlist : t.pathChars ++ [s.toChar] = t'.pathChars ++ [s.toChar] := String.ofList_injective h
  exact List.append_cancel_right hlist

/-- The first character, which marks the topics of the bus and of its driver, is one of the path. -/
theorem head?_chars {t : Topic} (h : t.pathChars ≠ []) : t.chars.head? = t.pathChars.head? := by
  rw [chars_eq, List.head?_append_of_ne_nil _ h]

theorem path_eq_empty_iff {t : Topic} : t.path = "" ↔ t.pathChars = [] := String.ofList_eq_empty_iff

@[simp] theorem pathChars_ofPath {path : List Char} (h : IsPath path) :
    (ofPath path h).pathChars = path := by
  show (splitSuffix (String.ofList path).toList).1 = path
  rw [String.toList_ofList, splitSuffix_of_isPath h]

@[simp] theorem suffix_ofPath {path : List Char} (h : IsPath path) : (ofPath path h).suffix = none := by
  show (splitSuffix (String.ofList path).toList).2 = none
  rw [String.toList_ofList, splitSuffix_of_isPath h]

@[simp] theorem pathChars_withoutSuffix (t : Topic) : t.withoutSuffix.pathChars = t.pathChars :=
  pathChars_ofPath t.isPath

@[simp] theorem pathChars_withSuffix (t : Topic) (s : TopicSuffix) :
    (t.withSuffix s).pathChars = t.pathChars := by
  show (splitSuffix (String.ofList (t.pathChars ++ [s.toChar])).toList).1 = t.pathChars
  rw [String.toList_ofList, splitSuffix_concat]

@[simp] theorem suffix_withSuffix (t : Topic) (s : TopicSuffix) :
    (t.withSuffix s).suffix = some s := by
  show (splitSuffix (String.ofList (t.pathChars ++ [s.toChar])).toList).2 = some s
  rw [String.toList_ofList, splitSuffix_concat]

/-! ## Levels -/

theorem areSegments {t : Topic} (h : t.pathChars ≠ []) : AreSegments true (pieces '/' t.pathChars) :=
  t.isPath.2.resolve_left h

/-- No level of a path is empty. -/
theorem segments_eq {t : Topic} (h : t.pathChars ≠ []) :
    t.segments = (pieces '/' t.pathChars).map String.ofList := by
  unfold segments
  rw [List.filter_eq_self.mpr]
  intro p hp
  simpa using ((areSegments h).of_mem hp).1

theorem segments_of_root {t : Topic} (h : t.pathChars = []) : t.segments = [] := by
  simp [segments, h, pieces]

theorem segments_eq_nil_iff {t : Topic} : t.segments = [] ↔ t.pathChars = [] := by
  constructor
  · intro hnil
    by_contra hne
    rw [segments_eq hne] at hnil
    exact pieces_ne_nil '/' t.pathChars (List.map_eq_nil_iff.mp hnil)
  · exact segments_of_root

theorem path_eq_empty_iff_segments {t : Topic} : t.path = "" ↔ t.segments = [] := by
  rw [path_eq_empty_iff, segments_eq_nil_iff]

theorem map_ofList_injective : Function.Injective (List.map String.ofList) :=
  List.map_injective_iff.mpr fun _ _ h => String.ofList_injective h

theorem pathChars_eq_of_segments {t t' : Topic} (h : t.segments = t'.segments) :
    t.pathChars = t'.pathChars := by
  by_cases hroot : t.pathChars = []
  · rw [segments_of_root hroot] at h
    rw [hroot, segments_eq_nil_iff.mp h.symm]
  · have hroot' : t'.pathChars ≠ [] := by
      intro hnil
      rw [segments_of_root hnil] at h
      exact hroot (segments_eq_nil_iff.mp h)
    rw [segments_eq hroot, segments_eq hroot'] at h
    exact pieces_injective (map_ofList_injective h)

theorem path_eq_iff {t t' : Topic} : t.path = t'.path ↔ t.segments = t'.segments := by
  constructor
  · intro h
    have hchars : t.pathChars = t'.pathChars := String.ofList_injective h
    unfold segments
    rw [hchars]
  · intro h
    unfold path
    rw [pathChars_eq_of_segments h]

/-- A topic is known by its levels and its suffix. -/
theorem eq_of_segments {t t' : Topic} (h : t.segments = t'.segments) (hs : t.suffix = t'.suffix) :
    t = t' := by
  have hchars : t.text.toList = t'.text.toList := by
    show t.chars = t'.chars
    rw [chars_eq, chars_eq, pathChars_eq_of_segments h, hs]
  have htext : t.text = t'.text := String.toList_injective hchars
  cases t
  cases t'
  cases htext
  rfl

@[simp] theorem segments_withoutSuffix (t : Topic) : t.withoutSuffix.segments = t.segments := by
  unfold segments
  rw [pathChars_withoutSuffix]

@[simp] theorem segments_withSuffix (t : Topic) (s : TopicSuffix) :
    (t.withSuffix s).segments = t.segments := by
  unfold segments
  rw [pathChars_withSuffix]

/-- The levels of a topic make up its path. -/
theorem intercalate_segments (t : Topic) : String.intercalate "/" t.segments = t.path := by
  by_cases hroot : t.pathChars = []
  · rw [segments_of_root hroot, path, hroot]
    rfl
  · rw [segments_eq hroot, intercalate_map_ofList, intercalate_pieces]
    rfl

theorem getLast?_segments {t : Topic} (h : t.pathChars ≠ []) :
    t.segments.getLast? = some t.lastSegment := by
  rw [segments_eq h, List.getLast?_map, List.getLast?_eq_some_getLast (pieces_ne_nil _ _)]
  rfl

/-- One level up, the last level is gone. -/
theorem segments_ofPath_parentChars (t : Topic) :
    (ofPath t.parentChars t.isPath_parentChars).segments = t.segments.dropLast := by
  have hchars := pathChars_ofPath t.isPath_parentChars
  by_cases hroot : t.pathChars = []
  · have hparent : t.parentChars = [] := by rw [parentChars, hroot]; rfl
    rw [segments_of_root (hchars.trans hparent), segments_of_root hroot, List.dropLast_nil]
  by_cases hsingle : (pieces '/' t.pathChars).dropLast = []
  · have hparent : t.parentChars = [] := by rw [parentChars, hsingle]; rfl
    rw [segments_of_root (hchars.trans hparent), segments_eq hroot, ← List.map_dropLast, hsingle,
      List.map_nil]
  · have hpieces : pieces '/' t.parentChars = (pieces '/' t.pathChars).dropLast :=
      pieces_intercalate hsingle fun p hp => notMem_of_mem_pieces (List.dropLast_subset _ hp)
    have hne : t.parentChars ≠ [] := by
      intro hparent
      -- the only piece would be empty, but no level is
      rw [hparent] at hpieces
      have hempty : [] ∈ (pieces '/' t.pathChars).dropLast := by
        rw [← hpieces]
        exact List.mem_singleton_self []
      exact absurd rfl ((areSegments hroot).of_mem (List.dropLast_subset _ hempty)).1
    rw [segments_eq (by rwa [hchars]), hchars, hpieces, segments_eq hroot, ← List.map_dropLast]

/-- The first levels of a topic are the levels of one. -/
theorem exists_of_prefix {t : Topic} {path : List String} (h : path <+: t.segments) :
    ∃ above : Topic, above.segments = path := by
  obtain ⟨rest, hrest⟩ := h
  induction rest using List.reverseRecOn generalizing t with
  | nil => exact ⟨t, by rw [← hrest, List.append_nil]⟩
  | append_singleton rest level ih =>
    refine ih (t := ofPath t.parentChars t.isPath_parentChars) ?_
    rw [segments_ofPath_parentChars, ← hrest, ← List.append_assoc, List.dropLast_concat]

/-! ## Reading a path -/

/-- A path does not end in a slash. -/
theorem stripSlash_pathChars (t : Topic) : stripSlash t.pathChars = t.pathChars := by
  unfold stripSlash
  split
  · rename_i hslash
    obtain ⟨front, hfront⟩ := List.getLast?_eq_some_iff.mp hslash
    -- else its last level would be empty
    have hne : t.pathChars ≠ [] := by simp [hfront]
    have hempty : [] ∈ pieces '/' t.pathChars := by
      rw [hfront, pieces_append_sep]
      simp [pieces]
    exact absurd rfl ((areSegments hne).of_mem hempty).1
  · rfl

theorem parse_of_check {s : String} {cs : List Char} (hs : stripSlash s.toList = cs)
    (h : check (String.ofList cs).toList = .ok ()) : parse s = .ok ⟨.ofList cs, h⟩ := by
  subst hs
  unfold parse
  simp only
  split
  · rfl
  · rename_i hcheck
    rw [h] at hcheck
    cases hcheck

/-- The path of a topic is itself the name of a topic. -/
theorem parse_path (t : Topic) : parse t.path = .ok t.withoutSuffix := by
  refine parse_of_check ?_ _
  show stripSlash (String.ofList t.pathChars).toList = t.pathChars
  rw [String.toList_ofList, stripSlash_pathChars]

/-! ## Prefixes -/

/-- One topic starts with another if its levels do. -/
theorem startsWith_iff {t above : Topic} : t.startsWith above ↔ above.segments <+: t.segments := by
  by_cases hfront : above.pathChars = []
  · simp [startsWith, hfront, segments_of_root hfront]
  by_cases hpath : t.pathChars = []
  · -- nothing but the root is above the root
    have hne : above.segments ≠ [] := fun hnil => hfront (segments_eq_nil_iff.mp hnil)
    simp [startsWith, hfront, hpath, segments_of_root hpath, hne]
  · rw [segments_eq hfront, segments_eq hpath, List.prefix_map_iff_of_injective
      (fun _ _ h => String.ofList_injective h), pieces_prefix_iff]
    simp only [startsWith, Bool.or_eq_true, beq_iff_eq, Bool.and_eq_true,
      List.isPrefixOf_iff_prefix, hfront, false_or]
    refine or_congr_right ?_
    constructor
    · rintro ⟨⟨rest, hrest⟩, hhead⟩
      rw [← hrest, List.drop_left] at hhead
      obtain ⟨rest', rfl⟩ := List.head?_eq_some_iff.mp hhead
      exact ⟨rest', hrest.symm⟩
    · rintro ⟨rest, hrest⟩
      rw [hrest]
      exact ⟨List.prefix_append _ _, by rw [List.drop_left]; rfl⟩

/-- What lies below a topic starts with the same character. -/
theorem head?_chars_of_prefix {t above : Topic} (hne : above.segments ≠ [])
    (h : above.segments <+: t.segments) : t.chars.head? = above.chars.head? := by
  have hfront : above.pathChars ≠ [] := mt segments_eq_nil_iff.mpr hne
  have hpath : t.pathChars ≠ [] := by
    intro hroot
    rw [segments_of_root hroot, List.prefix_nil] at h
    exact hne h
  rw [segments_eq hfront, segments_eq hpath, List.prefix_map_iff_of_injective
    (fun _ _ h => String.ofList_injective h), pieces_prefix_iff] at h
  rw [head?_chars hpath, head?_chars hfront]
  rcases h with heq | ⟨rest, heq⟩
  · rw [heq]
  · rw [heq, List.head?_append_of_ne_nil _ hfront]

/-! ## Prefixes of devices -/

/-- The levels in front of a slash are the first pieces, if there are that many. -/
theorem takeLevels_eq (n : Nat) (cs : List Char) :
    takeLevels n cs =
      if n < (pieces '/' cs).length then
        some (List.intercalate ['/'] ((pieces '/' cs).take (n + 1)))
      else none := by
  induction cs generalizing n with
  | nil => cases n <;> simp [takeLevels, pieces]
  | cons c cs ih =>
    have hpos : 0 < (pieces '/' cs).length := List.length_pos_iff.mpr (pieces_ne_nil '/' cs)
    by_cases hc : c = '/'
    · cases n with
      | zero => simp [takeLevels, pieces, hc]
      | succ n =>
        obtain ⟨p, ps, hps⟩ := List.exists_cons_of_ne_nil (pieces_ne_nil '/' cs)
        rw [takeLevels, if_pos hc, ih, pieces, if_pos hc, hps]
        by_cases hn : n < (p :: ps).length
        · rw [if_pos hn, if_pos (by simpa using hn)]
          simp [hc, List.intercalate_cons_cons]
        · rw [if_neg hn, if_neg (by simpa using hn)]
          rfl
    · obtain ⟨p, ps, hps⟩ := List.exists_cons_of_ne_nil (pieces_ne_nil '/' cs)
      have hpieces : pieces '/' (c :: cs) = (c :: p) :: ps := by
        rw [pieces, if_neg hc, hps]
      have hjoin : ∀ qs : List (List Char), List.intercalate ['/'] ((c :: p) :: qs) =
          c :: List.intercalate ['/'] (p :: qs) := by
        intro qs
        cases qs <;> simp [List.intercalate_cons_cons]
      have hstep : takeLevels n (c :: cs) = (takeLevels n cs).map (c :: ·) := by
        cases n <;> simp [takeLevels, hc]
      rw [hstep, ih, hpieces, hps]
      by_cases hn : n < (p :: ps).length
      · rw [if_pos hn, if_pos (by simpa using hn), Option.map_some, List.take_succ_cons,
          List.take_succ_cons, hjoin]
      · rw [if_neg hn, if_neg (by simpa using hn), Option.map_none]

/-- The topic is what a device may be registered with. -/
def IsDevicePrefix (t : Topic) : Prop := t.suffix = none ∧ t.devicePrefix = some t.path

namespace IsDevicePrefix

variable {d t : Topic}

theorem special (h : d.IsDevicePrefix) : d.isLocal = false ∧ d.isDriver = false := by
  have hown := h.2
  unfold devicePrefix at hown
  split at hown
  · cases hown
  · rename_i hplain
    simpa using hplain

/-- It has no suffix, so its text is its path. -/
theorem text_eq (h : d.IsDevicePrefix) : d.text = d.path := by
  refine String.toList_injective ?_
  show d.chars = _
  rw [chars_eq, h.1]
  simp [path]

theorem takeLevels_eq_some (h : d.IsDevicePrefix) : takeLevels 2 d.pathChars = some d.pathChars := by
  have hown := h.2
  unfold devicePrefix at hown
  split at hown
  · cases hown
  · obtain ⟨cs, hcs, hpath⟩ := Option.map_eq_some_iff.mp hown
    rw [hcs, String.ofList_injective hpath]

theorem length_pieces (h : d.IsDevicePrefix) : (pieces '/' d.pathChars).length = 3 := by
  have htake := h.takeLevels_eq_some
  rw [takeLevels_eq] at htake
  split at htake
  · rename_i hlength
    -- cutting the path off behind three levels leaves it as it is
    have hpieces : pieces '/' d.pathChars = (pieces '/' d.pathChars).take 3 := by
      conv_lhs => rw [← Option.some.inj htake]
      refine pieces_intercalate ?_ fun p hp => notMem_of_mem_pieces (List.mem_of_mem_take hp)
      simp [pieces_ne_nil]
    have htaken := congrArg List.length hpieces
    rw [List.length_take] at htaken
    omega
  · cases htake

theorem pathChars_ne_nil (h : d.IsDevicePrefix) : d.pathChars ≠ [] := by
  intro hnil
  have hlength := h.length_pieces
  rw [hnil] at hlength
  exact absurd hlength (by decide)

/-- The prefix of a device has three levels. -/
theorem length_segments (h : d.IsDevicePrefix) : d.segments.length = 3 := by
  rw [segments_eq h.pathChars_ne_nil, List.length_map, h.length_pieces]

/-- The first three levels of a topic are those of a device if it starts with these. -/
theorem take_segments_eq_iff (h : d.IsDevicePrefix) :
    t.segments.take 3 = d.segments ↔ d.segments <+: t.segments := by
  rw [List.prefix_iff_eq_take, h.length_segments]
  exact eq_comm

/-- A topic that starts with the prefix of a device belongs to this device. -/
theorem devicePrefix_eq (h : d.IsDevicePrefix) (ht : d.segments <+: t.segments) :
    t.devicePrefix = some d.path := by
  have hd := h.pathChars_ne_nil
  have hnil : t.pathChars ≠ [] := by
    intro hroot
    rw [segments_of_root hroot, List.prefix_nil] at ht
    exact hd (segments_eq_nil_iff.mp ht)
  have hpieces : pieces '/' d.pathChars <+: pieces '/' t.pathChars := by
    rw [segments_eq hd, segments_eq hnil, List.prefix_map_iff_of_injective
      (fun _ _ h => String.ofList_injective h)] at ht
    exact ht
  have hhead : t.chars.head? = d.chars.head? :=
    head?_chars_of_prefix (mt segments_eq_nil_iff.mp hd) ht
  have hplain : (t.isLocal || t.isDriver) = false := by
    obtain ⟨hlocal, hdriver⟩ := h.special
    unfold isLocal at hlocal ⊢
    unfold isDriver at hdriver ⊢
    rw [hhead, hlocal, hdriver]
    rfl
  have htake : (pieces '/' t.pathChars).take 3 = pieces '/' d.pathChars := by
    have heq := List.prefix_iff_eq_take.mp hpieces
    rw [h.length_pieces] at heq
    exact heq.symm
  have hlength : 2 < (pieces '/' t.pathChars).length := by
    have hle := hpieces.length_le
    rw [h.length_pieces] at hle
    exact hle
  unfold devicePrefix
  rw [if_neg (by simp [hplain]), takeLevels_eq, if_pos hlength, htake, intercalate_pieces]
  rfl

end IsDevicePrefix

end Topic
end InstrumentBus
