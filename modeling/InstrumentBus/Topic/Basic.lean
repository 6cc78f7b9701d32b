import InstrumentBus.Text.Pieces

/-!
Topic names: a path of levels separated by `/`, and an optional one-character suffix that says
which kind of message the name carries.

`Topic.parse` reads a name and reports the first fault of one that breaks a rule. A `Topic` keeps
the proof that its text passed these rules, so that every operation on topics shows that its result
is a topic again: `withSuffix`, `withoutSuffix` and `parent` never fail, and a suffix always fits.
-/

namespace InstrumentBus

open Text

/-- What a topic name announces by its last character. -/
inductive TopicSuffix
  | metadataReq
  | metadataRsp
  | queryReq
  | queryRsp
  | returnCode
  deriving DecidableEq, Repr

namespace TopicSuffix

def toChar : TopicSuffix → Char
  | metadataReq => '%'
  | metadataRsp => '$'
  | queryReq => '&'
  | queryRsp => '?'
  | returnCode => '#'

def ofChar? (c : Char) : Option TopicSuffix :=
  if c = '%' then some metadataReq
  else if c = '$' then some metadataRsp
  else if c = '&' then some queryReq
  else if c = '?' then some queryRsp
  else if c = '#' then some returnCode
  else none

@[simp] theorem ofChar?_toChar (s : TopicSuffix) : ofChar? s.toChar = some s := by
  cases s <;> decide

theorem toChar_of_ofChar? {c : Char} {s : TopicSuffix} (h : ofChar? c = some s) :
    s.toChar = c := by
  unfold ofChar? at h
  repeat' split at h
  all_goals simp_all [toChar]
  all_goals subst h; rfl

/-- Every suffix takes one byte. -/
@[simp] theorem utf8Size_toChar (s : TopicSuffix) : s.toChar.utf8Size = 1 := by
  cases s <;> decide

end TopicSuffix

/-- Why a text is not a topic name. Lengths are in bytes. -/
inductive TopicError
  | tooLong (topic : String) (length max : Nat)
  | segmentTooLong (segment : String) (length max : Nat)
  | emptySegment (topic : String)
  | reservedChar (topic : String) (char : Char)
  deriving DecidableEq, Repr

namespace TopicError

def message : TopicError → String
  | tooLong topic length max => s!"topic '{topic}' is {length} bytes, max {max}"
  | segmentTooLong segment length max => s!"segment '{segment}' is {length} bytes, max {max}"
  | emptySegment topic => s!"empty segment in topic '{topic}'"
  | reservedChar topic char => s!"reserved character '{char}' in topic '{topic}'"

end TopicError

namespace Topic

/-- The longest topic name with its suffix, in bytes. -/
def maxLength : Nat := 63

/-- The longest path, in bytes: room for a suffix is left. -/
def maxPathLength : Nat := 62

/-- The longest level of a path, in bytes. -/
def maxSegmentLength : Nat := 7

/-- The name of the level under which the driver's own topics lie. -/
def driverSegment : List Char := ['@']

/-- The characters that no level of a path may contain. -/
def reserved : List Char := ['/', '?', '#', '$', '\'', '"', '\\', '`', '&', '@', '%']

/-- The path and the suffix of a name. -/
def splitSuffix (cs : List Char) : List Char × Option TopicSuffix :=
  match cs.getLast?.bind TopicSuffix.ofChar? with
  | some suffix => (cs.dropLast, some suffix)
  | none => (cs, none)

/-- Checks one level; only the first level of a path may be the driver's. -/
def checkSegment (topic : List Char) (first : Bool) (segment : List Char) :
    Except TopicError Unit :=
  if segment = [] then .error (.emptySegment (.ofList topic))
  else if maxSegmentLength < byteLength segment then
    .error (.segmentTooLong (.ofList segment) (byteLength segment) maxSegmentLength)
  else if first && segment == driverSegment then .ok ()
  else match segment.find? (reserved.contains ·) with
    | some c => .error (.reservedChar (.ofList topic) c)
    | none => .ok ()

/-- Checks the levels of a path from the left; the first fault counts. -/
def checkSegments (topic : List Char) : Bool → List (List Char) → Except TopicError Unit
  | _, [] => .ok ()
  | first, s :: ss =>
    match checkSegment topic first s with
    | .error e => .error e
    | .ok () => checkSegments topic false ss

/-- Checks the text of a topic name. -/
def check (cs : List Char) : Except TopicError Unit :=
  if maxLength < byteLength cs then
    .error (.tooLong (.ofList cs) (byteLength cs) maxLength)
  else
    let path := (splitSuffix cs).1
    if maxPathLength < byteLength path then
      .error (.tooLong (.ofList cs) (byteLength path) maxPathLength)
    else if path = [] then .ok ()
    else checkSegments cs true (pieces '/' path)

/-! ### When a check passes -/

/-- What a level of a path looks like. -/
def IsSegment (first : Bool) (segment : List Char) : Prop :=
  segment ≠ [] ∧ byteLength segment ≤ maxSegmentLength ∧
    ((first = true ∧ segment = driverSegment) ∨ ∀ c ∈ segment, c ∉ reserved)

/-- What the levels of a path look like. -/
def AreSegments : Bool → List (List Char) → Prop
  | _, [] => True
  | first, s :: ss => IsSegment first s ∧ AreSegments false ss

theorem checkSegment_eq_ok_iff {topic segment : List Char} {first : Bool} :
    checkSegment topic first segment = .ok () ↔ IsSegment first segment := by
  unfold checkSegment IsSegment
  by_cases h1 : segment = []
  · simp [h1]
  by_cases h2 : maxSegmentLength < byteLength segment
  · simp [h1, h2, Nat.not_le.2 h2]
  by_cases h3 : first = true ∧ segment = driverSegment
  · have hne : driverSegment ≠ [] := by decide
    have hlen : ¬ maxSegmentLength < byteLength driverSegment := by decide
    simp [h3.1, h3.2, hne, hlen, Nat.not_lt.1 hlen]
  · have h3' : ¬ (first && segment == driverSegment) = true := by simpa using h3
    rw [if_neg h1, if_neg h2, if_neg h3']
    cases hf : segment.find? (reserved.contains ·) with
    | none =>
      simp only [List.find?_eq_none] at hf
      simp only [true_iff]
      exact ⟨h1, Nat.not_lt.1 h2, .inr fun c hc hr => hf c hc (by simpa using hr)⟩
    | some c =>
      have hc := List.mem_of_find?_eq_some hf
      have hr := List.find?_some hf
      simp only [reduceCtorEq, false_iff]
      rintro ⟨-, -, h | h⟩
      · exact h3 h
      · exact h c hc (by simpa using hr)

theorem checkSegments_eq_ok_iff {topic : List Char} {first : Bool} {segments : List (List Char)} :
    checkSegments topic first segments = .ok () ↔ AreSegments first segments := by
  induction segments generalizing first with
  | nil => simp [checkSegments, AreSegments]
  | cons s ss ih =>
    unfold checkSegments AreSegments
    rw [← @checkSegment_eq_ok_iff topic s first]
    cases hs : checkSegment topic first s with
    | error e => simp
    | ok u => simp [ih]

/-- What a path looks like. -/
def IsPath (path : List Char) : Prop :=
  byteLength path ≤ maxPathLength ∧ (path = [] ∨ AreSegments true (pieces '/' path))

theorem byteLength_splitSuffix (cs : List Char) :
    byteLength cs ≤ byteLength (splitSuffix cs).1 + 1 := by
  unfold splitSuffix
  split
  · rename_i s hs
    obtain ⟨c, hc, hs⟩ := Option.bind_eq_some_iff.1 hs
    have hcs : cs = cs.dropLast ++ [c] := by
      obtain ⟨ys, rfl⟩ := List.getLast?_eq_some_iff.1 hc
      simp
    rw [hcs, List.dropLast_concat, byteLength_append, ← TopicSuffix.toChar_of_ofChar? hs]
    simp
  · simp

/-- A name passes the check if its path does: any suffix fits. -/
theorem check_eq_ok_iff {cs : List Char} : check cs = .ok () ↔ IsPath (splitSuffix cs).1 := by
  have hlen := byteLength_splitSuffix cs
  have hmax : maxLength = maxPathLength + 1 := rfl
  unfold check IsPath
  by_cases h2 : maxPathLength < byteLength (splitSuffix cs).1
  · simp only [Nat.not_le.2 h2, false_and, iff_false]
    by_cases h1 : maxLength < byteLength cs <;> simp [h1, h2]
  · rw [if_neg (by omega)]
    simp only [if_neg h2]
    by_cases h3 : (splitSuffix cs).1 = []
    · simp [h3]
    · simp [h3, checkSegments_eq_ok_iff, Nat.not_lt.1 h2]

theorem AreSegments.of_mem {first : Bool} {segments : List (List Char)}
    (h : AreSegments first segments) {s : List Char} (hs : s ∈ segments) :
    s ≠ [] ∧ (s = driverSegment ∨ ∀ c ∈ s, c ∉ reserved) := by
  induction segments generalizing first with
  | nil => simp at hs
  | cons p ps ih =>
    rcases List.mem_cons.1 hs with rfl | hs
    · exact ⟨h.1.1, h.1.2.2.imp (·.2) id⟩
    · exact ih h.2 hs

theorem TopicSuffix.mem_reserved {c : Char} {s : TopicSuffix}
    (h : TopicSuffix.ofChar? c = some s) : c ∈ reserved := by
  rw [← TopicSuffix.toChar_of_ofChar? h]
  cases s <;> decide

/-- A path does not end in a suffix character. -/
theorem splitSuffix_of_isPath {path : List Char} (h : IsPath path) :
    splitSuffix path = (path, none) := by
  suffices hn : path.getLast?.bind TopicSuffix.ofChar? = none by simp [splitSuffix, hn]
  rcases h.2 with rfl | hseg
  · rfl
  · cases hb : path.getLast?.bind TopicSuffix.ofChar? with
    | none => rfl
    | some sfx =>
      obtain ⟨c, hc, hsfx⟩ := Option.bind_eq_some_iff.1 hb
      exfalso
      have hjoin := intercalate_pieces '/' path
      have hne := pieces_ne_nil '/' path
      obtain ⟨init, last, hlast⟩ : ∃ init last, pieces '/' path = init ++ [last] :=
        ⟨_, _, (List.dropLast_concat_getLast hne).symm⟩
      have hmem : last ∈ pieces '/' path := by simp [hlast]
      obtain ⟨hlne, hchars⟩ := hseg.of_mem hmem
      have hend : ∃ front, path = front ++ last := by
        rw [← hjoin, hlast]
        by_cases hi : init = []
        · exact ⟨[], by simp [hi]⟩
        · exact ⟨List.intercalate ['/'] init ++ ['/'], by simp [intercalate_concat hi]⟩
      obtain ⟨front, rfl⟩ := hend
      have hcl : c ∈ last := by
        rw [List.getLast?_append, List.getLast?_eq_some_getLast hlne] at hc
        simp only [Option.some_or, Option.some.injEq] at hc
        exact hc ▸ List.getLast_mem hlne
      rcases hchars with rfl | hchars
      · simp [driverSegment] at hcl
        subst hcl
        simp [TopicSuffix.ofChar?] at hsfx
      · exact hchars c hcl (TopicSuffix.mem_reserved hsfx)

end Topic
end InstrumentBus
