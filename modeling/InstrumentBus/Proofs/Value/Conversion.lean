import InstrumentBus.Proofs.Number.Numeral
import InstrumentBus.Proofs.Value.Integers

/-!
# Exact conversion of integers

A value denotes an integer if it is that integer, or a text that holds a numeral of it
(`Value.Denotes`). Numerals are read as the integers that they stand for and never by way of a
floating-point number, so conversion to an integer kind is exact: `Value.asType_exact`. Integers
come back from the text that they are displayed as, and from every kind that holds them.
-/

namespace InstrumentBus

open Number

/-- White space in ASCII. -/
def Text.asciiBlanks : List Char := [' ', '\t', '\n', '\x0b', '\x0c', '\r']

theorem Text.isBlank_of_mem_asciiBlanks {cs : List Char} (h : ∀ c ∈ cs, c ∈ asciiBlanks) :
    ∀ c ∈ cs, isBlank c = true := by
  have hall : asciiBlanks.all isBlank = true := by decide
  exact fun c hc => List.all_eq_true.mp hall c (h c hc)

namespace Value

/-- The value is the integer, or a text that holds a numeral of it with nothing but white space
around: one in base ten, with or without a sign, or one in base sixteen behind its mark. -/
inductive Denotes : Value → ℤ → Prop
  | integer {v : Value} {n : ℤ} : v.integer? = some n → Denotes v n
  | decimal {before numeral after : List Char} {n : ℤ} :
      (∀ c ∈ before, c ∈ Text.asciiBlanks) → (∀ c ∈ after, c ∈ Text.asciiBlanks) →
      IsSignedNumeral 10 numeral n → Denotes (.str (.ofList (before ++ numeral ++ after))) n
  | hexadecimal {before numeral after : List Char} {mark : Char} {n : ℕ} :
      (∀ c ∈ before, c ∈ Text.asciiBlanks) → (∀ c ∈ after, c ∈ Text.asciiBlanks) →
      mark = 'x' ∨ mark = 'X' → IsNumeral 16 numeral n →
      Denotes (.str (.ofList (before ++ '0' :: mark :: numeral ++ after))) n

variable {v w : Value} {type : ValueType} {n : ℤ}

theorem toInteger_of_readInteger {s : String} {numeral : List Char}
    (htrim : Text.trim s.toList = numeral) (h : readInteger numeral = some n) :
    (str s).toInteger = .ok n := by
  simp only [toInteger, integer?, htrim, h]

/-- What denotes an integer of 128 bits is read as that integer. -/
theorem toInteger_of_denotes (h : v.Denotes n) (hlow : -2 ^ 127 ≤ n) (hhigh : n < 2 ^ 127) :
    v.toInteger = .ok n := by
  cases h with
  | integer h => exact toInteger_of_integer? h
  | decimal hbefore hafter h =>
    refine toInteger_of_readInteger ?_ (readInteger_of_isSignedNumeral h hlow hhigh)
    rw [String.toList_ofList]
    exact Text.trim_append (Text.isBlank_of_mem_asciiBlanks hbefore)
      (Text.isBlank_of_mem_asciiBlanks hafter) fun c hc => h.isBlank_eq_false (by decide) hc
  | hexadecimal hbefore hafter hmark h =>
    refine toInteger_of_readInteger ?_ (readInteger_of_isNumeral hmark h hhigh)
    rw [String.toList_ofList]
    refine Text.trim_append (Text.isBlank_of_mem_asciiBlanks hbefore)
      (Text.isBlank_of_mem_asciiBlanks hafter) fun c hc => ?_
    rcases List.mem_cons.mp hc with rfl | hc
    · decide
    rcases List.mem_cons.mp hc with rfl | hc
    · rcases hmark with rfl | rfl <;> decide
    · exact (h.plain le_rfl hc).2

/-- What denotes an integer is converted to the value of a kind that is the integer, or refused. -/
theorem asType_of_denotes (h : v.Denotes n) (hlow : -2 ^ 127 ≤ n) (hhigh : n < 2 ^ 127)
    (htype : type.isInteger = true) :
    (n ∈ type.integers → ∃ w, v.asType type = .ok w ∧ w.type = type ∧ w.integer? = some n) ∧
      (n ∉ type.integers → v.asType type = .error .parameterInvalid) :=
  asType_of_toInteger htype (toInteger_of_denotes h hlow hhigh)

/-- A text without white space around it. -/
theorem denotes_toString (n : ℤ) : (str (toString n)).Denotes n := by
  have h := Denotes.decimal (List.forall_mem_nil _) (List.forall_mem_nil _)
    (isSignedNumeral_toString n)
  rwa [List.nil_append, List.append_nil, String.ofList_toList] at h

theorem display_of_integer? (h : v.integer? = some n) : v.display = toString n := by
  cases v with
  | null | str _ | json _ | bin _ | f32 _ | f64 _ => cases h
  | _ m =>
    obtain rfl := Option.some.inj h
    rfl

theorem fits_of_integer? (h : v.integer? = some n) : -2 ^ 127 ≤ n ∧ n < 2 ^ 127 := by
  have := natAbs_integer?_le h
  omega

/-- An integer value denotes an integer in every form, and each of them is converted back to it. -/
theorem asType_self_of_denotes (hv : v.integer? = some n) (hw : w.Denotes n) :
    w.asType v.type = .ok v := by
  obtain ⟨hlow, hhigh⟩ := fits_of_integer? hv
  obtain ⟨u, hu, htype, hn⟩ :=
    (asType_of_denotes hw hlow hhigh (isInteger_of_integer? hv)).1 (mem_integers_of_integer? hv)
  rw [hu, eq_of_integer? htype hn hv]

/-- Conversion to an integer kind is exact: what denotes an integer of 128 bits, as any integer
value or as a numeral in text, becomes the value of the kind that is this integer, and is refused if
the kind has none. So an integer value comes back from the text that it is displayed as, from its form
with 64 bits and from every kind that it can be converted to. -/
theorem asType_exact :
    (∀ (v : Value) (n : ℤ) (type : ValueType), v.Denotes n → -2 ^ 127 ≤ n → n < 2 ^ 127 →
      type.isInteger = true →
      (n ∈ type.integers → ∃ w, v.asType type = .ok w ∧ w.type = type ∧ w.integer? = some n) ∧
        (n ∉ type.integers → v.asType type = .error .parameterInvalid)) ∧
      ∀ v : Value, v.type.isInteger = true →
        (str v.display).asType v.type = .ok v ∧ v.widen.asType v.type = .ok v ∧
          ∀ (type : ValueType) (w : Value), type.isInteger = true → v.asType type = .ok w →
            w.asType v.type = .ok v := by
  refine ⟨fun v n type h hlow hhigh htype => asType_of_denotes h hlow hhigh htype,
    fun v hinteger => ?_⟩
  obtain ⟨n, hn⟩ := exists_integer? hinteger
  refine ⟨?_, ?_, fun type w htype hw => ?_⟩
  · rw [display_of_integer? hn]
    exact asType_self_of_denotes hn (denotes_toString n)
  · exact asType_self_of_denotes hn (.integer (by rw [integer?_widen, hn]))
  · refine asType_self_of_denotes hn (.integer ?_)
    obtain ⟨hin, hout⟩ := asType_of_toInteger htype (toInteger_of_integer? hn)
    by_cases hmem : n ∈ type.integers
    · obtain ⟨u, hu, -, hu'⟩ := hin hmem
      rw [hw] at hu
      rwa [Except.ok.inj hu]
    · rw [hout hmem] at hw
      cases hw

/-- A numeral that no floating-point number holds is converted without loss, one in base sixteen is
refused if the kind is too small, and an integer comes back from its text. -/
theorem numerals_exact :
    (str " 9007199254740993\n").Denotes 9007199254740993 ∧
      (str " 9007199254740993\n").asType .u64 = .ok (u64 9007199254740993) ∧
      (str "0xFf").Denotes 255 ∧ (str "0xFf").asType .i8 = .error .parameterInvalid ∧
      (str (i16 (-300)).display).asType .i16 = .ok (i16 (-300)) := by
  have hdecimal : (str " 9007199254740993\n").Denotes 9007199254740993 := by
    have htext : " 9007199254740993\n" =
        .ofList ([' '] ++ (toString (9007199254740993 : ℤ)).toList ++ ['\n']) := by decide +kernel
    rw [htext]
    exact .decimal (by simp [Text.asciiBlanks]) (by simp [Text.asciiBlanks])
      (isSignedNumeral_toString _)
  have hhexadecimal : (str "0xFf").Denotes (255 : ℕ) := by
    have hnumeral : IsNumeral 16 ['F', 'f'] 255 :=
      ⟨by simp, [15, 15], .cons ⟨by decide, .inr rfl⟩ (.cons ⟨by decide, .inl rfl⟩ .nil), by decide⟩
    exact .hexadecimal (List.forall_mem_nil _) (List.forall_mem_nil _) (.inl rfl) hnumeral
  obtain ⟨hexact, hback⟩ := asType_exact
  refine ⟨hdecimal, ?_, hhexadecimal, ?_, (hback (i16 (-300)) rfl).1⟩
  · obtain ⟨w, hw, htype, hn⟩ :=
      (hexact _ _ .u64 hdecimal (by decide) (by decide) rfl).1 (by simp [ValueType.integers])
    have hvalue : (u64 9007199254740993).integer? = some 9007199254740993 := rfl
    rw [hw, eq_of_integer? htype hn hvalue]
  · exact (hexact _ _ .i8 hhexadecimal (by decide) (by decide) rfl).2 (by simp [ValueType.integers])

end Value
end InstrumentBus
