import InstrumentBus.Topic.Basic

/-!
The type of topics and the ways from one topic to another.

A topic keeps its text as written. Its path is the text without the suffix, its levels are the
pieces of the path between slashes. Prefix tests and cuts work on the text; that they agree with
the levels is a fact about paths, not a definition.
-/

namespace InstrumentBus

open Text

/-- A topic name that passed the rules. -/
structure Topic where
  text : String
  checked : Topic.check text.toList = .ok ()
  deriving DecidableEq

namespace Topic

/-- The text without one trailing slash: `"@/"` names the topic `"@"`. -/
def stripSlash (cs : List Char) : List Char :=
  if cs.getLast? = some '/' then cs.dropLast else cs

/-- Reads a topic name. -/
def parse (s : String) : Except TopicError Topic :=
  let name := String.ofList (stripSlash s.toList)
  match h : check name.toList with
  | .ok () => .ok ⟨name, h⟩
  | .error e => .error e

/-- The topic above all others. -/
def root : Topic := ⟨"", rfl⟩

instance : Inhabited Topic := ⟨root⟩

instance : ToString Topic := ⟨text⟩

/-- Topics are sorted by the code points of their texts, which is the order of their bytes. -/
instance : Ord Topic := ⟨fun a b => compare a.text b.text⟩

/-- Topics in their order; equal ones stay where they are. -/
def sort (ts : List Topic) : List Topic := ts.mergeSort fun a b => (compare a b).isLE

section Parts

variable (t : Topic)

def chars : List Char := t.text.toList

def length : Nat := byteLength t.chars

def suffix : Option TopicSuffix := (splitSuffix t.chars).2

/-- The characters of the name without its suffix. -/
def pathChars : List Char := (splitSuffix t.chars).1

/-- The name without its suffix. -/
def path : String := .ofList t.pathChars

def isRoot : Bool := t.text == ""

/-- The levels of the path; the root has none. -/
def segments : List String :=
  ((pieces '/' t.pathChars).filter (· ≠ [])).map .ofList

/-- The last level of the path; the empty text for the root. -/
def lastSegment : String :=
  .ofList ((pieces '/' t.pathChars).getLast (pieces_ne_nil _ _))

/-- A command to the bus itself. -/
def isLocal : Bool := t.chars.head? == some '_'

/-- A topic of the driver. -/
def isDriver : Bool := t.chars.head? == some '@'

/-- An action: its value is passed on and never kept. -/
def isAction : Bool := t.lastSegment.toList.head? == some '!'

end Parts

/-! ### From topic to topic -/

theorem isPath (t : Topic) : IsPath t.pathChars := check_eq_ok_iff.1 t.checked

/-- A path without a suffix passes the check. -/
theorem check_of_isPath {path : List Char} (h : IsPath path) : check path = .ok () :=
  check_eq_ok_iff.2 (by rwa [splitSuffix_of_isPath h])

theorem splitSuffix_concat (path : List Char) (s : TopicSuffix) :
    splitSuffix (path ++ [s.toChar]) = (path, some s) := by
  simp [splitSuffix]

/-- The topic whose name is a path. -/
def ofPath (path : List Char) (h : IsPath path) : Topic :=
  ⟨.ofList path, by simpa using check_of_isPath h⟩

/-- The same path without a suffix. -/
def withoutSuffix (t : Topic) : Topic := ofPath t.pathChars t.isPath

/-- The same path with another suffix. -/
def withSuffix (t : Topic) (s : TopicSuffix) : Topic where
  text := .ofList (t.pathChars ++ [s.toChar])
  checked := by
    rw [String.toList_ofList, check_eq_ok_iff, splitSuffix_concat]
    exact t.isPath

/-- Adds a level, or several, at the end of the path; a suffix of the topic is dropped. -/
def join (t : Topic) (segment : String) : Except TopicError Topic :=
  if t.pathChars = [] then parse segment
  else parse (t.path ++ "/" ++ segment)

theorem AreSegments.dropLast {first : Bool} {segments : List (List Char)}
    (h : AreSegments first segments) : AreSegments first segments.dropLast := by
  induction segments generalizing first with
  | nil => exact h
  | cons s ss ih =>
    cases ss with
    | nil => trivial
    | cons r rs => exact ⟨h.1, ih h.2⟩

/-- The characters of the path without its last level. -/
def parentChars (t : Topic) : List Char :=
  List.intercalate ['/'] (pieces '/' t.pathChars).dropLast

theorem isPath_parentChars (t : Topic) : IsPath t.parentChars := by
  obtain ⟨hlen, hseg⟩ := t.isPath
  by_cases hnil : (pieces '/' t.pathChars).dropLast = []
  · simp [IsPath, parentChars, hnil]
  · refine ⟨?_, .inr ?_⟩
    · have hsplit := (List.dropLast_concat_getLast (pieces_ne_nil '/' t.pathChars)).symm
      have hjoin := intercalate_pieces '/' t.pathChars
      rw [hsplit, intercalate_concat hnil] at hjoin
      rw [← hjoin, byteLength_append] at hlen
      exact Nat.le_trans (Nat.le_add_right _ _) hlen
    · rw [parentChars, pieces_intercalate hnil fun p hp =>
        notMem_of_mem_pieces (List.dropLast_subset _ hp)]
      rcases hseg with hroot | hseg
      · rw [hroot] at hnil
        exact absurd rfl hnil
      · exact hseg.dropLast

/-- The path without its last level; the root has no parent. -/
def parent (t : Topic) : Option Topic :=
  if t.pathChars = [] then none else some (ofPath t.parentChars t.isPath_parentChars)

/-! ### Prefixes -/

/-- The path is the path of `above` or lies below it. -/
def startsWith (t above : Topic) : Bool :=
  let path := t.pathChars
  let front := above.pathChars
  front == [] || path == front ||
    (front.isPrefixOf path && (path.drop front.length).head? == some '/')

/-- The text before the slash that follows `n` more slashes, all of it if just `n` are left. -/
def takeLevels : Nat → List Char → Option (List Char)
  | 0, [] => some []
  | _ + 1, [] => none
  | 0, c :: cs => if c = '/' then some [] else (takeLevels 0 cs).map (c :: ·)
  | n + 1, c :: cs => (takeLevels (if c = '/' then n else n + 1) cs).map (c :: ·)

/-- The prefix of the device that a topic belongs to: the first three levels of its path. Commands
and driver topics belong to no device. -/
def devicePrefix (t : Topic) : Option String :=
  if t.isLocal || t.isDriver then none
  else (takeLevels 2 t.pathChars).map .ofList

end Topic
end InstrumentBus
