/-!
# Words

Counters, capacities and the whole numbers in documents are words of 64 bits, with a sign or
without.

A sum, a product or a difference of words may be no word.  The operations in `Checked` notice that:
a computation whose steps are all checked gives a number only if no step overflows, so to say that
the plain computation never overflows is to say that the checked one gives its result.

What becomes of a program at such a step is a matter of how it was built.  It may stop there, or it
may go on with the word that is left of the result, and `Overflow` is the choice between the two.
As long as there is no overflow it is all one (`Overflow.add_of_le`, `Overflow.sub_of_le`).
-/

namespace WindowedStats

/-- The number of values that a word can have, which is two to the power 64. -/
def wordCount : Nat := 18446744073709551616

/-- The greatest value of a word. -/
def maxWord : Nat := 18446744073709551615

/-- The least value of a signed word. -/
def leastSigned : Int := -9223372036854775808

/-- The greatest value of a signed word. -/
def greatestSigned : Int := 9223372036854775807

theorem wordCount_eq : wordCount = UInt64.size := rfl

theorem maxWord_eq : maxWord = wordCount - 1 := rfl

theorem toNat_le_maxWord (w : UInt64) : w.toNat ≤ maxWord := Nat.lt_succ_iff.mp w.toNat_lt

theorem leastSigned_eq : leastSigned = Int64.minValue.toInt := rfl

theorem greatestSigned_eq : greatestSigned = Int64.maxValue.toInt := rfl

/-! ## Operations that notice an overflow -/

namespace Checked

/-- The number `n`, if a word holds it. -/
def word? (n : Nat) : Option Nat := if n ≤ maxWord then some n else none

/-- The sum of two words. -/
def add? (m n : Nat) : Option Nat := word? (m + n)

/-- The product of two words. -/
def mul? (m n : Nat) : Option Nat := word? (m * n)

/-- The difference of two words, which must not be negative. -/
def sub? (m n : Nat) : Option Nat := if n ≤ m then some (m - n) else none

theorem add?_of_le {m n : Nat} (h : m + n ≤ maxWord) : add? m n = some (m + n) := if_pos h

theorem mul?_of_le {m n : Nat} (h : m * n ≤ maxWord) : mul? m n = some (m * n) := if_pos h

theorem sub?_of_le {m n : Nat} (h : n ≤ m) : sub? m n = some (m - n) := if_pos h

theorem add?_eq_some {m n k : Nat} : add? m n = some k ↔ m + n ≤ maxWord ∧ m + n = k := by
  rw [add?, word?, Option.ite_none_right_eq_some, Option.some_inj]

theorem sub?_eq_some {m n k : Nat} : sub? m n = some k ↔ n ≤ m ∧ m - n = k := by
  rw [sub?, Option.ite_none_right_eq_some, Option.some_inj]

end Checked

/-! ## What becomes of a result that no word holds -/

/-- What a program does when no word holds the result of a step. -/
inductive Overflow where
  | stops
  /-- It goes on with the low bits of the result. -/
  | wraps
deriving DecidableEq

namespace Overflow

variable {o : Overflow} {m n k : Nat}

/-- The sum of two words. -/
def add : Overflow → Nat → Nat → Option Nat
  | stops, m, n => Checked.add? m n
  | wraps, m, n => some ((m + n) % wordCount)

/-- The difference of two words. -/
def sub : Overflow → Nat → Nat → Option Nat
  | stops, m, n => Checked.sub? m n
  | wraps, m, n => some (if n ≤ m then m - n else m + wordCount - n)

theorem add_of_le (h : m + n ≤ maxWord) : o.add m n = some (m + n) := by
  cases o with
  | stops => exact Checked.add?_of_le h
  | wraps => exact congrArg some (Nat.mod_eq_of_lt (Nat.lt_succ_of_le h))

theorem sub_of_le (h : n ≤ m) : o.sub m n = some (m - n) := by
  cases o with
  | stops => exact Checked.sub?_of_le h
  | wraps => exact congrArg some (if_pos h)

/-- A sum is a word. -/
theorem le_of_add (h : o.add m n = some k) : k ≤ maxWord := by
  cases o with
  | stops =>
      obtain ⟨hle, rfl⟩ := Checked.add?_eq_some.mp h
      exact hle
  | wraps =>
      obtain rfl : (m + n) % wordCount = k := Option.some.inj h
      exact Nat.le_of_lt_succ (Nat.mod_lt _ (by decide))

/-- A difference of words is a word. -/
theorem le_of_sub (hm : m ≤ maxWord) (h : o.sub m n = some k) : k ≤ maxWord := by
  cases o with
  | stops =>
      obtain ⟨-, rfl⟩ := Checked.sub?_eq_some.mp h
      exact Nat.le_trans (Nat.sub_le m n) hm
  | wraps =>
      obtain rfl : (if n ≤ m then m - n else m + wordCount - n) = k := Option.some.inj h
      simp only [maxWord, wordCount] at hm ⊢
      split <;> omega

/-- A sum is right but for what is above the low bits. -/
theorem mod_of_add (h : o.add m n = some k) : k % wordCount = (m + n) % wordCount := by
  cases o with
  | stops =>
      obtain ⟨-, rfl⟩ := Checked.add?_eq_some.mp h
      rfl
  | wraps =>
      obtain rfl : (m + n) % wordCount = k := Option.some.inj h
      exact Nat.mod_mod _ _

/-- A difference is right but for what is above the low bits. -/
theorem mod_of_sub (hn : n ≤ maxWord) (h : o.sub m n = some k) :
    (k + n) % wordCount = m % wordCount := by
  cases o with
  | stops =>
      obtain ⟨hle, rfl⟩ := Checked.sub?_eq_some.mp h
      rw [Nat.sub_add_cancel hle]
  | wraps =>
      obtain rfl : (if n ≤ m then m - n else m + wordCount - n) = k := Option.some.inj h
      simp only [maxWord, wordCount] at hn ⊢
      split <;> omega

end Overflow

end WindowedStats
