/-!
The number that digits of a base stand for.

`fromDigits` joins neighbours to digits of the squared base for as long as there are many digits, so
that a long numeral takes few products of large numbers. `fromDigits_eq_foldl` says that this is the
number that one gets digit by digit.
-/

namespace InstrumentBus.Number

/-- Joins digits in pairs to digits of the squared base. -/
def joinPairs (base : Nat) : List Nat → List Nat
  | a :: b :: ds => (a * base + b) :: joinPairs base ds
  | ds => ds

/-- Digits of the squared base for the same number. A zero in front makes the count even. -/
def squareBase (base : Nat) (ds : List Nat) : List Nat :=
  joinPairs base (if ds.length % 2 = 0 then ds else 0 :: ds)

/-- The number of digits that are read one by one. -/
def fewDigits : Nat := 32

/-- The number that digits stand for, after squaring the base so many times at most. -/
def joinDigits : Nat → Nat → List Nat → Nat
  | 0, base, ds => ds.foldl (fun n d => n * base + d) 0
  | rounds + 1, base, ds =>
    if ds.length ≤ fewDigits then ds.foldl (fun n d => n * base + d) 0
    else joinDigits rounds (base * base) (squareBase base ds)

/-- The number that digits of a base stand for, the highest digit first. -/
def fromDigits (base : Nat) (ds : List Nat) : Nat := joinDigits 32 base ds

theorem foldl_joinPairs (base : Nat) (ds : List Nat) (n : Nat) (h : ds.length % 2 = 0) :
    (joinPairs base ds).foldl (fun n d => n * (base * base) + d) n =
      ds.foldl (fun n d => n * base + d) n := by
  fun_induction joinPairs base ds generalizing n with
  | case1 a b ds ih =>
    have step : n * (base * base) + (a * base + b) = (n * base + a) * base + b := by
      rw [Nat.add_mul, Nat.mul_assoc, Nat.add_assoc]
    rw [List.foldl_cons, List.foldl_cons, List.foldl_cons, step]
    exact ih _ (by simp only [List.length_cons] at h; omega)
  | case2 ds hds =>
    match ds, hds with
    | [], _ => rfl
    | [_], _ => simp at h
    | a :: b :: ds, hds => exact absurd rfl (hds a b ds)

theorem foldl_squareBase (base : Nat) (ds : List Nat) :
    (squareBase base ds).foldl (fun n d => n * (base * base) + d) 0 =
      ds.foldl (fun n d => n * base + d) 0 := by
  rw [squareBase]
  split
  · next even => exact foldl_joinPairs base ds 0 even
  · next odd =>
    rw [foldl_joinPairs base (0 :: ds) 0 (by rw [List.length_cons]; omega), List.foldl_cons,
      Nat.zero_mul, Nat.zero_add]

theorem joinDigits_eq_foldl (rounds base : Nat) (ds : List Nat) :
    joinDigits rounds base ds = ds.foldl (fun n d => n * base + d) 0 := by
  induction rounds generalizing base ds with
  | zero => rfl
  | succ rounds ih =>
    rw [joinDigits]
    split
    · rfl
    · rw [ih, foldl_squareBase]

theorem fromDigits_eq_foldl (base : Nat) (ds : List Nat) :
    fromDigits base ds = ds.foldl (fun n d => n * base + d) 0 :=
  joinDigits_eq_foldl 32 base ds

end InstrumentBus.Number
