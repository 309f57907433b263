import Mathlib.Algebra.Order.Ring.Nat
import Mathlib.Tactic.SplitIfs

/-!
# The order of texts is the order of their bytes

Texts are compared character by character.  Stored in UTF-8 they are compared byte by byte, and it
is the same order: a code point is written as its digits to the base 64, the leading ones together
with a mark that grows with the number of the digits that follow (`encoding_eq`).  So of two code
points the lesser one has the lesser first byte, or the same first byte and as many digits after it,
which then decide (`encoding_lt`).

`lt_iff_bytes_lt` says this of whole texts.
-/

namespace WindowedStats.Text

/-- The bytes of a text, in UTF-8. -/
def bytes (s : String) : List UInt8 := s.toByteArray.data.toList

/-- The last digits of a number to the base 64, each as a byte that continues a character. -/
def trailing : Nat → Nat → List UInt8
  | 0, _ => []
  | k + 1, v => UInt8.ofNat (v / 64 ^ k % 64 + 128) :: trailing k v

/-- The number of bytes after the first one of a code point. -/
def trailingCount (v : Nat) : Nat :=
  if v < 128 then 0 else if v < 2048 then 1 else if v < 65536 then 2 else 3

/-- What the first byte of a code point has beside its digits, if some number of bytes follow. -/
def leadingMark : Nat → Nat
  | 0 => 0
  | 1 => 192
  | 2 => 224
  | _ => 240

/-- The first byte of a code point. -/
def leading (v : Nat) : Nat := v / 64 ^ trailingCount v + leadingMark (trailingCount v)

/-! ## One character -/

theorem trailing_lt {k v w : Nat} (h : v % 64 ^ k < w % 64 ^ k) (x y : List UInt8) :
    trailing k v ++ x < trailing k w ++ y := by
  induction k with
  | zero => simp only [Nat.pow_zero, Nat.mod_one, Nat.lt_irrefl] at h
  | succ k ih =>
      have hdigit : ∀ u : Nat, (UInt8.ofNat (u / 64 ^ k % 64 + 128)).toNat =
          u / 64 ^ k % 64 + 128 := by
        intro u
        rw [UInt8.toNat_ofNat']
        omega
      rw [Nat.pow_succ, Nat.mod_mul, Nat.mod_mul] at h
      rw [trailing, trailing, List.cons_append, List.cons_append, List.cons_lt_cons_iff,
        UInt8.lt_iff_toNat_lt, ← UInt8.toNat_inj, hdigit, hdigit]
      rcases Nat.lt_trichotomy (v / 64 ^ k % 64) (w / 64 ^ k % 64) with hlt | heq | hgt
      · exact .inl (by omega)
      · rw [heq, Nat.add_lt_add_iff_right] at h
        exact .inr ⟨by omega, ih h⟩
      · -- The greater digit outweighs all the digits after it.
        have hstep : 64 ^ k * (w / 64 ^ k % 64 + 1) ≤ 64 ^ k * (v / 64 ^ k % 64) :=
          Nat.mul_le_mul_left _ hgt
        have hrest : w % 64 ^ k < 64 ^ k := Nat.mod_lt w (Nat.pow_pos (by decide))
        rw [Nat.mul_add, Nat.mul_one] at hstep
        omega

theorem toNat_lt (c : Char) : c.toNat < 1114112 := by
  have hvalid := c.valid
  simp only [UInt32.isValidChar, Nat.isValidChar] at hvalid
  show c.val.toNat < 1114112
  omega

theorem encoding_eq (c : Char) :
    String.utf8EncodeChar c =
      UInt8.ofNat (leading c.toNat) :: trailing (trailingCount c.toNat) c.toNat := by
  have hlt := toNat_lt c
  have hle : ∀ n, (c.val.toNat ≤ n) = (c.toNat < n + 1) := fun n => propext Nat.lt_succ_iff.symm
  simp only [String.utf8EncodeChar, hle, leading, trailingCount]
  -- The leading digits are few enough to leave the mark as it is.
  split
  · rw [Nat.pow_zero, Nat.div_one]
    rfl
  · split
    · rw [Nat.pow_one, ← Nat.mod_eq_of_lt (show c.toNat / 64 < 32 by omega)]
      simp only [trailing, Nat.pow_zero, Nat.div_one]
      rfl
    · split
      · rw [← Nat.mod_eq_of_lt (show c.toNat / 64 ^ 2 < 16 by omega)]
        simp only [trailing, Nat.pow_zero, Nat.pow_one, Nat.div_one]
        rfl
      · rw [← Nat.mod_eq_of_lt (show c.toNat / 64 ^ 3 < 8 by omega)]
        simp only [trailing, Nat.pow_zero, Nat.pow_one, Nat.div_one]
        rfl

theorem leading_lt {v : Nat} (h : v < 1114112) : leading v < 256 := by
  simp only [leading, trailingCount]
  split_ifs <;> simp only [leadingMark, Nat.pow_zero, Nat.pow_one, Nat.reducePow] <;> omega

/-- More bytes after the first one show in the first one already. -/
theorem leading_lt_of_trailingCount_lt {v w : Nat} (h : trailingCount v < trailingCount w) :
    leading v < leading w := by
  revert h
  simp only [leading, trailingCount]
  split_ifs <;> simp only [leadingMark, Nat.pow_zero, Nat.pow_one, Nat.reducePow] <;> omega

theorem trailingCount_mono {v w : Nat} (h : v ≤ w) : trailingCount v ≤ trailingCount w := by
  simp only [trailingCount]
  split_ifs <;> omega

/-- The lesser of two code points has the lesser first byte, or is less in the digits that follow
the same first byte. -/
theorem leading_lt_or {v w : Nat} (h : v < w) :
    leading v < leading w ∨ leading v = leading w ∧ trailingCount v = trailingCount w ∧
      v % 64 ^ trailingCount v < w % 64 ^ trailingCount v := by
  rcases Nat.lt_or_eq_of_le (trailingCount_mono (Nat.le_of_lt h)) with hcount | hcount
  · exact .inl (leading_lt_of_trailingCount_lt hcount)
  · have hv := Nat.div_add_mod v (64 ^ trailingCount v)
    have hw := Nat.div_add_mod w (64 ^ trailingCount v)
    rcases Nat.lt_or_eq_of_le (Nat.div_le_div_right (Nat.le_of_lt h)) with hdigits | hdigits
    · exact .inl (by rw [leading, leading, ← hcount]; exact Nat.add_lt_add_right hdigits _)
    · refine .inr ⟨by rw [leading, leading, ← hcount, hdigits], hcount, ?_⟩
      rw [hdigits] at hv
      omega

theorem encoding_lt {c d : Char} (h : c < d) (x y : List UInt8) :
    String.utf8EncodeChar c ++ x < String.utf8EncodeChar d ++ y := by
  have hlt : c.toNat < d.toNat := h
  have hbyte : ∀ e : Char, (UInt8.ofNat (leading e.toNat)).toNat = leading e.toNat := by
    intro e
    rw [UInt8.toNat_ofNat', Nat.mod_eq_of_lt (leading_lt (toNat_lt e))]
  rw [encoding_eq, encoding_eq, List.cons_append, List.cons_append, List.cons_lt_cons_iff,
    UInt8.lt_iff_toNat_lt, ← UInt8.toNat_inj, hbyte, hbyte]
  rcases leading_lt_or hlt with hfirst | ⟨hfirst, hcount, hrest⟩
  · exact .inl hfirst
  · rw [← hcount]
    exact .inr ⟨hfirst, trailing_lt hrest x y⟩

/-! ## Whole texts -/

theorem bytes_eq_flatMap (s : String) : bytes s = s.toList.flatMap String.utf8EncodeChar := by
  rw [bytes, ← String.utf8Encode_toList, List.utf8Encode, List.toList_data_toByteArray]

theorem flatMap_encoding_lt {a b : List Char} (h : a < b) :
    a.flatMap String.utf8EncodeChar < b.flatMap String.utf8EncodeChar := by
  induction h with
  | nil =>
      rw [List.flatMap_nil, List.flatMap_cons, encoding_eq]
      exact .nil
  | rel hcd => exact encoding_lt hcd _ _
  | cons _ ih => exact List.append_left_lt ih

/-- Texts are in the order of their bytes. -/
theorem lt_iff_bytes_lt {a b : String} : a < b ↔ bytes a < bytes b := by
  have hforward : ∀ {c d : String}, c < d → bytes c < bytes d := by
    intro c d h
    rw [bytes_eq_flatMap, bytes_eq_flatMap]
    exact flatMap_encoding_lt h
  refine ⟨hforward, ?_⟩
  intro h
  rcases Std.lt_trichotomy a b with hlt | rfl | hgt
  · exact hlt
  · exact absurd h (List.lt_irrefl _)
  · exact absurd h (List.lt_asymm (hforward hgt))

end WindowedStats.Text
