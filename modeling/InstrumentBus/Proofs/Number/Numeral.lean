import Mathlib
import InstrumentBus.Number.Numeral
import InstrumentBus.Text.Blank

/-!
# Numerals

A numeral is a row of digits, the highest first (`IsNumeral`), and may have a sign in front
(`IsSignedNumeral`). What a row of digits stands for is `Nat.ofDigits` of their values, and the
reader finds it: `readInteger_of_isSignedNumeral` and `readInteger_of_isNumeral`. The texts that
numbers are written as are numerals of them: `isSignedNumeral_toString`.
-/

namespace InstrumentBus

namespace Text

/-- White space around a text whose characters are not white space is what trimming takes away. -/
theorem trim_append {before cs after : List Char} (hbefore : ∀ c ∈ before, isBlank c = true)
    (hafter : ∀ c ∈ after, isBlank c = true) (hcs : ∀ c ∈ cs, isBlank c = false) :
    trim (before ++ cs ++ after) = cs := by
  have hkeep (xs ys : List Char) (hxs : ∀ c ∈ xs, isBlank c = false) (hne : xs ≠ []) :
      (xs ++ ys).dropWhile isBlank = xs ++ ys := by
    obtain ⟨c, xs, rfl⟩ := List.exists_cons_of_ne_nil hne
    rw [List.cons_append, List.dropWhile_cons_of_neg]
    simp [hxs c List.mem_cons_self]
  rw [trim, List.append_assoc, List.dropWhile_append_of_pos hbefore]
  by_cases hnil : cs = []
  · subst hnil
    rw [List.nil_append, List.dropWhile_eq_nil_iff.mpr hafter]
    rfl
  · rw [hkeep cs after hcs hnil, List.reverse_append,
      List.dropWhile_append_of_pos (by simpa using hafter), ← List.append_nil cs.reverse,
      hkeep _ _ (by simpa using hcs) (by simpa using hnil)]
    simp

end Text

namespace Number

variable {base n d : ℕ} {c : Char} {cs : List Char} {z : ℤ}

/-! ## Rows of digits -/

/-- The character is the digit `d` of a base, a letter in either case. -/
def IsDigitOf (base : ℕ) (c : Char) (d : ℕ) : Prop :=
  d < base ∧ (c = Nat.digitChar d ∨ c = (Nat.digitChar d).toUpper)

/-- The text is a row of digits, the highest first, that stand for the number. Zeros may stand in
front. -/
def IsNumeral (base : ℕ) (cs : List Char) (n : ℕ) : Prop :=
  cs ≠ [] ∧ ∃ ds, List.Forall₂ (IsDigitOf base) cs ds ∧ n = Nat.ofDigits base ds.reverse

/-- The text is a numeral with or without a sign in front. -/
inductive IsSignedNumeral (base : ℕ) : List Char → ℤ → Prop
  | unsigned {cs : List Char} {n : ℕ} : IsNumeral base cs n → IsSignedNumeral base cs n
  | plus {cs : List Char} {n : ℕ} : IsNumeral base cs n → IsSignedNumeral base ('+' :: cs) n
  | minus {cs : List Char} {n : ℕ} : IsNumeral base cs n → IsSignedNumeral base ('-' :: cs) (-n)

/-- A digit is neither a sign nor the mark of a base nor white space. -/
theorem IsDigitOf.plain (h : IsDigitOf base c d) (hbase : base ≤ 16) :
    c ∉ ['+', '-', 'x', 'X'] ∧ Text.isBlank c = false := by
  obtain ⟨hd, hc⟩ := h
  have hd : d < 16 := hd.trans_le hbase
  interval_cases d <;> rcases hc with rfl | rfl <;> decide

theorem IsNumeral.plain (h : IsNumeral base cs n) (hbase : base ≤ 16) (hc : c ∈ cs) :
    c ∉ ['+', '-', 'x', 'X'] ∧ Text.isBlank c = false := by
  obtain ⟨-, ds, hds, -⟩ := h
  obtain ⟨i, hi, rfl⟩ := List.mem_iff_getElem.mp hc
  exact (List.Forall₂.get hds hi (hds.length_eq ▸ hi)).plain hbase

theorem IsSignedNumeral.isBlank_eq_false (h : IsSignedNumeral base cs z) (hbase : base ≤ 16)
    (hc : c ∈ cs) : Text.isBlank c = false := by
  cases h with
  | unsigned h => exact (h.plain hbase hc).2
  | plus h | minus h =>
    rcases List.mem_cons.mp hc with rfl | hc
    · decide
    · exact (h.plain hbase hc).2

/-- A number has digits in every base. -/
theorem isNumeral_toDigits (hbase : 1 < base) (n : ℕ) : IsNumeral base (Nat.toDigits base n) n := by
  refine ⟨Nat.toDigits_ne_nil, ?_⟩
  induction n using Nat.strong_induction_on with
  | _ n ih =>
    rcases lt_or_ge n base with hlt | hge
    · refine ⟨[n], ?_, by simp⟩
      rw [Nat.toDigits_of_lt_base hlt]
      exact .cons ⟨hlt, .inl rfl⟩ .nil
    · obtain ⟨ds, hds, hn⟩ := ih (n / base) (Nat.div_lt_self (by omega) hbase)
      refine ⟨ds ++ [n % base], ?_, ?_⟩
      · rw [Nat.toDigits_of_base_le hbase hge]
        exact List.rel_append hds (.cons ⟨Nat.mod_lt _ (by omega), .inl rfl⟩ .nil)
      · rw [List.reverse_append, List.reverse_singleton, List.singleton_append, Nat.ofDigits_cons,
          ← hn]
        exact (Nat.mod_add_div n base).symm

/-- An integer is written as a numeral. -/
theorem isSignedNumeral_toString (z : ℤ) : IsSignedNumeral 10 (toString z).toList z := by
  cases z with
  | ofNat n =>
    have htext : (toString (Int.ofNat n)).toList = Nat.toDigits 10 n := by
      rw [← Nat.toList_repr]
      rfl
    rw [htext]
    exact .unsigned (isNumeral_toDigits (by decide) n)
  | negSucc n =>
    have htext : (toString (Int.negSucc n)).toList = '-' :: Nat.toDigits 10 (n + 1) := by
      rw [← Nat.toList_repr]
      exact String.toList_append
    rw [htext, Int.negSucc_eq]
    exact .minus (n := n + 1) (isNumeral_toDigits (by decide) (n + 1))

/-! ## Reading numerals -/

theorem digitOf?_of_isDigitOf (h : IsDigitOf base c d) (hbase : base ≤ 16) :
    digitOf? base c = some d := by
  obtain ⟨hd, hc⟩ := h
  have hvalue : digitValue c = some d := by
    have hd : d < 16 := hd.trans_le hbase
    interval_cases d <;> rcases hc with rfl | rfl <;> decide
  simp [digitOf?, hvalue, hd]

theorem readNat_of_isNumeral (h : IsNumeral base cs n) (hbase : base ≤ 16) :
    readNat base cs = some n := by
  obtain ⟨hne, ds, hds, rfl⟩ := h
  have hdigits : cs.mapM (digitOf? base) = some ds := by
    clear hne
    induction hds with
    | nil => rfl
    | cons hd _ ih => simp [digitOf?_of_isDigitOf hd hbase, ih]
  rw [readNat, if_neg hne, hdigits, Option.map_some, fromDigits_eq_foldl, Nat.ofDigits_eq_foldr,
    List.foldr_reverse]
  simp only [Nat.cast_id, Nat.add_comm, Nat.mul_comm]

theorem readInt_of_isSignedNumeral (h : IsSignedNumeral base cs z) (hbase : base ≤ 16) :
    readInt base cs = some z := by
  cases h with
  | plus h => rw [readInt, readNat_of_isNumeral h hbase]; rfl
  | minus h => rw [readInt, readNat_of_isNumeral h hbase]; rfl
  | unsigned h =>
    unfold readInt
    split
    · exact absurd (h.plain hbase List.mem_cons_self).1 (by simp)
    · exact absurd (h.plain hbase List.mem_cons_self).1 (by simp)
    · rw [readNat_of_isNumeral h hbase]
      rfl

theorem fits128_of_mem (hlow : -2 ^ 127 ≤ z) (hhigh : z < 2 ^ 127) : fits128 z = true := by
  rw [fits128, Bool.and_eq_true, decide_eq_true_iff, decide_eq_true_iff, limit128]
  exact ⟨hlow, hhigh⟩

/-- A numeral in base ten is read as the integer that it stands for. -/
theorem readInteger_of_isSignedNumeral (h : IsSignedNumeral 10 cs z) (hlow : -2 ^ 127 ≤ z)
    (hhigh : z < 2 ^ 127) : readInteger cs = some z := by
  have hmark (mark : Char) (digits : List Char) (hmark : mark ∈ ['+', '-', 'x', 'X']) :
      cs ≠ '0' :: mark :: digits := by
    rintro rfl
    cases h with
    | unsigned h => exact (h.plain (by decide) (List.mem_cons_of_mem _ List.mem_cons_self)).1 hmark
  have hread : readInteger cs = (readInt 10 cs).filter fits128 := by
    unfold readInteger
    split
    · exact absurd rfl (hmark 'x' _ (by decide))
    · exact absurd rfl (hmark 'X' _ (by decide))
    · rfl
  rw [hread, readInt_of_isSignedNumeral h (by decide), Option.filter_some,
    if_pos (fits128_of_mem hlow hhigh)]

/-- A numeral in base sixteen behind its mark is read as the number that it stands for. -/
theorem readInteger_of_isNumeral {mark : Char} (hmark : mark = 'x' ∨ mark = 'X')
    (h : IsNumeral 16 cs n) (hhigh : (n : ℤ) < 2 ^ 127) :
    readInteger ('0' :: mark :: cs) = some (n : ℤ) := by
  have hread : readInteger ('0' :: mark :: cs) = (readInt 16 cs).filter fits128 := by
    rcases hmark with rfl | rfl <;> rfl
  rw [hread, readInt_of_isSignedNumeral (.unsigned h) le_rfl, Option.filter_some,
    if_pos (fits128_of_mem (by omega) hhigh)]

end Number
end InstrumentBus
