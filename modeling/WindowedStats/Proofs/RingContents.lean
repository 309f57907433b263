import Mathlib.Algebra.BigOperators.Intervals
import Mathlib.Data.Nat.ModEq
import WindowedStats.Rate.TickRing

/-!
# What a tick ring holds

A ring is a machine for a function from ticks to counts, of which it keeps the part inside its
window.  `TickRing.Holds` is that relation: the slot that lies `k` places after the slot of the
oldest tick shows the count of the tick `k` after the oldest one, the total is the sum over the
window, and nothing has been counted beyond the window.  The function may say anything about ticks
that the window has left behind, so it does not change when the window moves:

    r.Holds f → (r.advance now).Holds f

A sweep that stops early leaves `oldestIndex` behind `oldestTick`.  This is sound because it stops
only when the total is zero, and a ring without counts looks the same from every slot
(`Holds.restart`).
-/

namespace WindowedStats

namespace TickRing

/-- The ring keeps the counts `f` of the ticks in its window, and `f` is zero beyond it. -/
structure Holds (r : TickRing) (f : Nat → Nat) : Prop where
  oldestIndex_lt : r.oldestIndex < r.size
  get_slot : ∀ k < r.size, r.slots.get ((r.oldestIndex + k) % r.size) = f (r.oldestTick + k)
  total_eq : r.total = ∑ k ∈ Finset.range r.size, f (r.oldestTick + k)
  ahead : ∀ tick, r.oldestTick + r.size ≤ tick → f tick = 0

theorem size_pos (r : TickRing) : 0 < r.size := Nat.succ_pos _

theorem holds_empty (span : Nat) : (empty span).Holds fun _ => 0 where
  oldestIndex_lt := size_pos _
  get_slot _ _ := Slots.get_empty _
  total_eq := by simp [empty]
  ahead _ _ := rfl

/-! ## Distinct places in the window have distinct slots -/

/-- Going once around the ring meets no slot twice. -/
theorem place_inj {n i j k : Nat} (hj : j < n) (hk : k < n)
    (h : (i + j) % n = (i + k) % n) : j = k := by
  have hmod : j % n = k % n := Nat.ModEq.add_left_cancel' i h
  rwa [Nat.mod_eq_of_lt hj, Nat.mod_eq_of_lt hk] at hmod

/-! ## Dropping the oldest tick -/

@[simp] theorem size_dropOldest (r : TickRing) : r.dropOldest.size = r.size := rfl

@[simp] theorem span_dropOldest (r : TickRing) : r.dropOldest.span = r.span := rfl

@[simp] theorem oldestTick_dropOldest (r : TickRing) :
    r.dropOldest.oldestTick = r.oldestTick + 1 := rfl

theorem Holds.get_oldest {r : TickRing} {f : Nat → Nat} (h : r.Holds f) :
    r.slots.get r.oldestIndex = f r.oldestTick := by
  simpa [Nat.mod_eq_of_lt h.oldestIndex_lt] using h.get_slot 0 r.size_pos

/-- The slots after the oldest tick is dropped: the freed slot now serves the tick that has just
entered the window, which has no count yet. -/
theorem Holds.get_slot_dropOldest {r : TickRing} {f : Nat → Nat} (h : r.Holds f) {k : Nat}
    (hk : k < r.size) :
    r.dropOldest.slots.get ((r.dropOldest.oldestIndex + k) % r.size) =
      f (r.oldestTick + 1 + k) := by
  have hplace : ((r.oldestIndex + 1) % r.size + k) % r.size =
      (r.oldestIndex + (k + 1)) % r.size := by
    rw [Nat.mod_add_mod]; congr 1; omega
  show (r.slots.clear r.oldestIndex).get (((r.oldestIndex + 1) % r.size + k) % r.size) = _
  rw [hplace, Slots.get_clear]
  rcases Nat.lt_or_ge (k + 1) r.size with hlt | hge
  · have hne : r.oldestIndex ≠ (r.oldestIndex + (k + 1)) % r.size := by
      intro he
      have hfirst : (r.oldestIndex + 0) % r.size = r.oldestIndex :=
        Nat.mod_eq_of_lt h.oldestIndex_lt
      have := place_inj r.size_pos hlt (hfirst.trans he)
      omega
    rw [if_neg hne, h.get_slot _ hlt]
    congr 1; omega
  -- The last place is the slot that has just been freed.
  · have hlast : k + 1 = r.size := by omega
    rw [hlast, Nat.add_mod_right, Nat.mod_eq_of_lt h.oldestIndex_lt, if_pos rfl]
    exact (h.ahead _ (by omega)).symm

/-- The window total splits into the oldest tick and the window that starts one tick later. -/
theorem Holds.total_split {r : TickRing} {f : Nat → Nat} (h : r.Holds f) :
    r.total = (∑ k ∈ Finset.range r.size, f (r.oldestTick + 1 + k)) + f r.oldestTick := by
  have hlast : f (r.oldestTick + 1 + r.span) = 0 := h.ahead _ (by simp only [size]; omega)
  have hshift : ∀ k ∈ Finset.range r.span,
      f (r.oldestTick + (k + 1)) = f (r.oldestTick + 1 + k) := fun k _ => by
    congr 1; omega
  rw [h.total_eq, size, Finset.sum_range_succ', Finset.sum_range_succ, hlast,
    Finset.sum_congr rfl hshift]
  rfl

theorem Holds.dropOldest {r : TickRing} {f : Nat → Nat} (h : r.Holds f) :
    r.dropOldest.Holds f where
  oldestIndex_lt := Nat.mod_lt _ r.size_pos
  get_slot _ hk := h.get_slot_dropOldest hk
  total_eq := by
    show r.total - r.slots.get r.oldestIndex = _
    rw [h.get_oldest, h.total_split, Nat.add_sub_cancel]
    rfl
  ahead tick ht := h.ahead tick (by
    simp only [oldestTick_dropOldest, size_dropOldest] at ht
    omega)

/-! ## Sweeping -/

@[simp] theorem span_sweep (n : Nat) (r : TickRing) : (sweep n r).span = r.span := by
  induction n generalizing r with
  | zero => rfl
  | succ n ih =>
      simp only [sweep]
      split
      · rfl
      · exact ih r.dropOldest

theorem Holds.sweep {f : Nat → Nat} (n : Nat) {r : TickRing} (h : r.Holds f) :
    (sweep n r).Holds f := by
  induction n generalizing r with
  | zero => exact h
  | succ n ih =>
      simp only [TickRing.sweep]
      split
      · exact h.dropOldest
      · exact ih h.dropOldest

/-- A sweep goes all the way or stops at an empty ring before. -/
theorem sweep_stop (n : Nat) (r : TickRing) :
    (sweep n r).oldestTick = r.oldestTick + n ∨
      (sweep n r).total = 0 ∧ (sweep n r).oldestTick ≤ r.oldestTick + n := by
  induction n generalizing r with
  | zero => exact Or.inl rfl
  | succ n ih =>
      simp only [sweep]
      split
      · next h0 => exact Or.inr ⟨h0, by simp only [oldestTick_dropOldest]; omega⟩
      · rcases ih r.dropOldest with h | ⟨h0, hle⟩
        · exact Or.inl (by rw [h, oldestTick_dropOldest]; omega)
        · exact Or.inr ⟨h0, by rw [oldestTick_dropOldest] at hle; omega⟩

/-! ## Moving the window -/

/-- In a ring without counts nothing is counted from the oldest tick on. -/
theorem Holds.eq_zero {r : TickRing} {f : Nat → Nat} (h : r.Holds f) (h0 : r.total = 0) {tick : Nat}
    (ht : r.oldestTick ≤ tick) : f tick = 0 := by
  rcases Nat.lt_or_ge tick (r.oldestTick + r.size) with hlt | hge
  · have hsum := h.total_eq.symm.trans h0
    have hk : tick - r.oldestTick ∈ Finset.range r.size := Finset.mem_range.mpr (by omega)
    simpa [Nat.add_sub_cancel' ht] using Finset.sum_eq_zero_iff.mp hsum _ hk
  · exact h.ahead tick hge

/-- A ring without counts may take any later tick for its oldest one. -/
theorem Holds.restart {r : TickRing} {f : Nat → Nat} (h : r.Holds f) (h0 : r.total = 0) {tick : Nat}
    (ht : r.oldestTick ≤ tick) : Holds { r with oldestTick := tick } f where
  oldestIndex_lt := h.oldestIndex_lt
  get_slot k hk := by
    show r.slots.get ((r.oldestIndex + k) % r.size) = f (tick + k)
    rw [h.get_slot k hk, h.eq_zero h0 (Nat.le_add_right _ _), h.eq_zero h0 (by omega)]
  total_eq := by
    show r.total = ∑ k ∈ Finset.range r.size, f (tick + k)
    rw [h0, Finset.sum_eq_zero fun k _ => h.eq_zero h0 (by omega)]
  ahead t htt := h.eq_zero h0 (by
    have : tick + r.size ≤ t := htt
    omega)

@[simp] theorem span_advance (r : TickRing) (now : Nat) : (r.advance now).span = r.span := by
  simp only [advance]
  split
  · rfl
  · exact span_sweep _ _

/-- Moving the window never moves it back. -/
theorem oldestTick_advance (r : TickRing) (now : Nat) :
    (r.advance now).oldestTick = max r.oldestTick (now - r.span) := by
  simp only [advance]
  split
  · next hle => exact (Nat.max_eq_left hle).symm
  · next hlt => exact (Nat.max_eq_right (Nat.le_of_not_le hlt)).symm

theorem total_sweep_le (n : Nat) (r : TickRing) : (sweep n r).total ≤ r.total := by
  induction n generalizing r with
  | zero => exact Nat.le_refl _
  | succ n ih =>
      have hdrop : r.dropOldest.total ≤ r.total := Nat.sub_le _ _
      simp only [sweep]
      split
      · exact hdrop
      · exact Nat.le_trans (ih r.dropOldest) hdrop

theorem total_advance_le (r : TickRing) (now : Nat) : (r.advance now).total ≤ r.total := by
  simp only [advance]
  split
  · exact Nat.le_refl _
  · exact total_sweep_le _ _

theorem Holds.advance {r : TickRing} {f : Nat → Nat} (h : r.Holds f) (now : Nat) :
    (r.advance now).Holds f := by
  simp only [TickRing.advance]
  split
  · exact h
  · next hlt =>
    have hs := h.sweep (now - r.span - r.oldestTick)
    have hstop := sweep_stop (now - r.span - r.oldestTick) r
    -- After an early stop the oldest index lags behind, which an empty ring does not show.
    generalize TickRing.sweep (now - r.span - r.oldestTick) r = s at hs hstop ⊢
    rcases hstop with he | ⟨h0, hle⟩
    · have hnew : now - r.span = s.oldestTick := by omega
      rw [hnew]
      exact hs
    · exact hs.restart h0 (by omega)

/-! ## Counting -/

/-- The counts `f` with `count` more at a tick. -/
def raise (f : Nat → Nat) (tick count : Nat) : Nat → Nat :=
  fun t => f t + if t = tick then count else 0

/-- A raise inside a range of ticks raises the sum over that range. -/
theorem sum_raise (f : Nat → Nat) {start n tick : Nat} (count : Nat) (hlo : start ≤ tick)
    (hhi : tick < start + n) :
    ∑ k ∈ Finset.range n, raise f tick count (start + k) =
      (∑ k ∈ Finset.range n, f (start + k)) + count := by
  have hone : ∑ k ∈ Finset.range n, (if start + k = tick then count else 0) = count := by
    rw [Finset.sum_eq_single (tick - start)]
    · rw [if_pos (by omega)]
    · intro k _ hk
      exact if_neg (by omega)
    · intro hk
      exact absurd (Finset.mem_range.mpr (by omega)) hk
  simp only [raise, Finset.sum_add_distrib, hone]

theorem Holds.bump {r : TickRing} {f : Nat → Nat} (h : r.Holds f) (count : Nat) {tick : Nat}
    (hlo : r.oldestTick ≤ tick) (hhi : tick < r.oldestTick + r.size) :
    (r.bump count tick).Holds (raise f tick count) where
  oldestIndex_lt := h.oldestIndex_lt
  get_slot k hk := by
    have htick : tick - r.oldestTick < r.size := by omega
    have hself : r.slots.get (r.index tick) = f tick := by
      rw [index, h.get_slot _ htick, Nat.add_sub_cancel' hlo]
    show (r.slots.set (r.index tick) (r.slots.get (r.index tick) + count)).get
      ((r.oldestIndex + k) % r.size) = raise f tick count (r.oldestTick + k)
    rw [Slots.get_set, h.get_slot k hk, hself, raise]
    by_cases hkt : r.oldestTick + k = tick
    · have hplace : r.index tick = (r.oldestIndex + k) % r.size := by
        rw [index]; congr 2; omega
      rw [if_pos hplace, if_pos hkt, hkt]
    · have hplace : r.index tick ≠ (r.oldestIndex + k) % r.size := fun he =>
        hkt (by have := place_inj htick hk he; omega)
      rw [if_neg hplace, if_neg hkt, Nat.add_zero]
  total_eq := by
    show r.total + count = ∑ k ∈ Finset.range r.size, raise f tick count (r.oldestTick + k)
    rw [sum_raise f count hlo hhi, h.total_eq]
  ahead t ht := by
    have hbeyond : r.oldestTick + r.size ≤ t := ht
    rw [raise, h.ahead t hbeyond, if_neg (by omega)]

theorem add?_of_lt {r : TickRing} {now : Nat} (h : now < r.oldestTick) (count : Nat) :
    r.add? count now = none := if_pos h

theorem add?_of_le {r : TickRing} {now : Nat} (h : r.oldestTick ≤ now) (count : Nat) :
    r.add? count now = some ((r.advance now).bump count now) := if_neg (Nat.not_lt.mpr h)

/-- A tick that the window has not left behind lies in the window that is moved for it. -/
theorem tick_mem_advance {r : TickRing} {now : Nat} (h : r.oldestTick ≤ now) :
    (r.advance now).oldestTick ≤ now ∧
      now < (r.advance now).oldestTick + (r.advance now).size := by
  rw [size, span_advance, oldestTick_advance]
  omega

theorem Holds.add {r : TickRing} {f : Nat → Nat} (h : r.Holds f) (count : Nat) {now : Nat}
    (hle : r.oldestTick ≤ now) :
    ((r.advance now).bump count now).Holds (raise f now count) :=
  (h.advance now).bump count (tick_mem_advance hle).1 (tick_mem_advance hle).2

end TickRing

end WindowedStats
