import Mathlib.Algebra.Order.BigOperators.Group.Finset
import WindowedStats.Proofs.UpdateLog

/-!
# Where a tick ring stores its updates

A run of operations on a ring offers updates at any ticks, and moves the window, also without an
update.  The plainest account of a run needs no ring: its horizon is the oldest tick in the window
after all its operations, and the updates from the horizon on are live.  An update that comes too
late is before the horizon already, so it is not among them.

After every run the ring holds what its offered updates add up to (`represents_after`), and from
this follows what each slot shows: the slot that lies as many places after the oldest one as a tick
lies after the horizon has the live counts of that tick (`Represents.get_index`), and a slot that no
live tick takes shows zero (`Represents.get_free`).  Taken over all slots, the counters make up the
total (`Holds.sum_slots`).
-/

namespace WindowedStats.TickRing

/-! ## Runs -/

/-- What can be done to a ring; ticks and counts are words. -/
inductive Op where
  | add (count tick : UInt64)
  | advance (tick : UInt64)
deriving DecidableEq

def Op.tick : Op → Nat
  | .add _ tick => tick.toNat
  | .advance tick => tick.toNat

/-- The update that an operation offers: its tick and its count. -/
def Op.update? : Op → Option (Nat × Nat)
  | .add count tick => some (tick.toNat, count.toNat)
  | .advance _ => none

/-- An update that comes too late leaves the ring as it is. -/
def perform (r : TickRing) : Op → TickRing
  | .add count tick => (r.add? count.toNat tick.toNat).getD r
  | .advance tick => r.advance tick.toNat

def after (r : TickRing) (ops : List Op) : TickRing := ops.foldl perform r

theorem after_concat (r : TickRing) (ops : List Op) (op : Op) :
    r.after (ops ++ [op]) = (r.after ops).perform op := List.foldl_concat _ _ _ _

theorem perform_add_of_lt {r : TickRing} {tick : UInt64} (h : tick.toNat < r.oldestTick)
    (count : UInt64) : r.perform (.add count tick) = r := by
  rw [perform, add?_of_lt h, Option.getD_none]

theorem perform_add_of_le {r : TickRing} {tick : UInt64} (h : r.oldestTick ≤ tick.toNat)
    (count : UInt64) :
    r.perform (.add count tick) = (r.advance tick.toNat).bump count.toNat tick.toNat := by
  rw [perform, add?_of_le h, Option.getD_some]

@[simp] theorem span_perform (r : TickRing) (op : Op) : (r.perform op).span = r.span := by
  cases op with
  | advance tick => exact span_advance r tick.toNat
  | add count tick =>
      rcases Nat.lt_or_ge tick.toNat r.oldestTick with hlt | hle
      · rw [perform_add_of_lt hlt]
      · rw [perform_add_of_le hle]
        exact span_advance r tick.toNat

@[simp] theorem span_after (r : TickRing) (ops : List Op) : (r.after ops).span = r.span := by
  induction ops generalizing r with
  | nil => rfl
  | cons op rest ih => exact (ih (r.perform op)).trans (r.span_perform op)

/-! ## The account of a run -/

/-- The oldest tick in a window of `span` ticks after the one that moved for each operation, never
back. -/
def horizon (span : Nat) (ops : List Op) : Nat := ops.foldl (fun h op => max h (op.tick - span)) 0

/-- The updates that a run offers, each with its tick and its count. -/
def offered (ops : List Op) : List (Nat × Nat) := ops.filterMap Op.update?

/-- The updates of a run that are still in the window after it. -/
def live (span : Nat) (ops : List Op) : List (Nat × Nat) :=
  (offered ops).filter (horizon span ops ≤ ·.1)

theorem horizon_concat (span : Nat) (ops : List Op) (op : Op) :
    horizon span (ops ++ [op]) = max (horizon span ops) (op.tick - span) := by
  rw [horizon, List.foldl_concat, horizon]

/-- No operation lies beyond the window that its run leaves behind. -/
theorem tick_le_horizon (span : Nat) {ops : List Op} {op : Op} (h : op ∈ ops) :
    op.tick ≤ horizon span ops + span := by
  induction ops using List.reverseRecOn with
  | nil => exact absurd h List.not_mem_nil
  | append_singleton ops last ih =>
      rw [horizon_concat]
      rcases List.mem_append.mp h with hbefore | hlast
      · have := ih hbefore
        omega
      · rw [List.mem_singleton.mp hlast]
        omega

theorem mem_offered {ops : List Op} {u : Nat × Nat} (h : u ∈ offered ops) :
    ∃ op ∈ ops, op.tick = u.1 := by
  obtain ⟨op, hop, hu⟩ := List.mem_filterMap.mp h
  refine ⟨op, hop, ?_⟩
  cases op with
  | add count tick =>
      cases hu
      rfl
  | advance tick => cases hu

theorem countAt_concat (updates : List (Nat × Nat)) (tick count : Nat) :
    UpdateLog.countAt (updates ++ [(tick, count)]) =
      raise (UpdateLog.countAt updates) tick count := by
  funext t
  by_cases h : tick = t
  · simp [UpdateLog.countAt, raise, List.filter_append, h]
  · simp [UpdateLog.countAt, raise, List.filter_append, h, Ne.symm h]

/-- From the horizon on, the live updates count as much as all updates on offer. -/
theorem countAt_live {span tick : Nat} {ops : List Op} (h : horizon span ops ≤ tick) :
    UpdateLog.countAt (live span ops) tick = UpdateLog.countAt (offered ops) tick := by
  rw [UpdateLog.countAt, UpdateLog.countAt, live, List.filter_filter]
  congr 2
  refine List.filter_congr ?_
  rintro ⟨t, count⟩ -
  by_cases ht : t = tick
  · simp [ht, h]
  · simp [ht]

/-! ## What a ring holds after a run -/

/-- A count at a tick that the window has left behind does not show. -/
theorem Holds.raise_of_lt {r : TickRing} {f : Nat → Nat} (h : r.Holds f) (count : Nat) {tick : Nat}
    (hlt : tick < r.oldestTick) : r.Holds (raise f tick count) := by
  have hsame : ∀ t, r.oldestTick ≤ t → raise f tick count t = f t := by
    intro t ht
    rw [raise, if_neg (by omega), Nat.add_zero]
  refine ⟨h.oldestIndex_lt, ?_, ?_, ?_⟩
  · intro k hk
    rw [hsame _ (Nat.le_add_right _ _), h.get_slot k hk]
  · rw [h.total_eq]
    exact Finset.sum_congr rfl fun k _ => (hsame _ (Nat.le_add_right _ _)).symm
  · intro t ht
    rw [hsame t (by omega), h.ahead t ht]

/-- The ring is what the account of a run says. -/
structure Represents (r : TickRing) (span : Nat) (ops : List Op) : Prop where
  span_eq : r.span = span
  oldestTick_eq : r.oldestTick = horizon span ops
  holds : r.Holds (UpdateLog.countAt (offered ops))

theorem represents_empty (span : Nat) : (empty span).Represents span [] :=
  ⟨rfl, rfl, holds_empty span⟩

theorem Represents.advance {r : TickRing} {span : Nat} {ops : List Op} (h : r.Represents span ops)
    (tick : UInt64) : (r.advance tick.toNat).Represents span (ops ++ [.advance tick]) where
  span_eq := (span_advance _ _).trans h.span_eq
  oldestTick_eq := by
    rw [horizon_concat, oldestTick_advance, h.oldestTick_eq, h.span_eq]
    rfl
  holds := by
    have hoffered : offered (ops ++ [.advance tick]) = offered ops := by
      simp [offered, List.filterMap_append, Op.update?]
    rw [hoffered]
    exact h.holds.advance tick.toNat

theorem Represents.add {r : TickRing} {span : Nat} {ops : List Op} (h : r.Represents span ops)
    (count tick : UInt64) :
    (r.perform (.add count tick)).Represents span (ops ++ [.add count tick]) := by
  have hcount : UpdateLog.countAt (offered (ops ++ [.add count tick])) =
      raise (UpdateLog.countAt (offered ops)) tick.toNat count.toNat := by
    rw [← countAt_concat]
    simp [offered, List.filterMap_append, Op.update?]
  have hhorizon : horizon span (ops ++ [.add count tick]) =
      max r.oldestTick (tick.toNat - r.span) := by
    rw [horizon_concat, h.oldestTick_eq, h.span_eq]
    rfl
  rcases Nat.lt_or_ge tick.toNat r.oldestTick with hlt | hle
  · rw [perform_add_of_lt hlt]
    refine ⟨h.span_eq, ?_, ?_⟩
    · rw [hhorizon]
      omega
    · rw [hcount]
      exact h.holds.raise_of_lt _ hlt
  · rw [perform_add_of_le hle]
    refine ⟨(span_advance _ _).trans h.span_eq, ?_, ?_⟩
    · rw [hhorizon]
      exact oldestTick_advance _ _
    · rw [hcount]
      exact h.holds.add count.toNat hle

theorem Represents.perform {r : TickRing} {span : Nat} {ops : List Op} (h : r.Represents span ops)
    (op : Op) : (r.perform op).Represents span (ops ++ [op]) := by
  cases op with
  | add count tick => exact h.add count tick
  | advance tick => exact h.advance tick

/-- After every run from the empty ring, the ring is what the account of the run says. -/
theorem represents_after (span : Nat) (ops : List Op) :
    ((empty span).after ops).Represents span ops := by
  induction ops using List.reverseRecOn with
  | nil => exact represents_empty span
  | append_singleton ops op ih =>
      rw [after_concat]
      exact ih.perform op

/-! ## What the slots show -/

/-- The slot of a tick in the window shows the count of the tick. -/
theorem Holds.get_index {r : TickRing} {f : Nat → Nat} (h : r.Holds f) {tick : Nat}
    (hlo : r.oldestTick ≤ tick) (hhi : tick < r.oldestTick + r.size) :
    r.slots.get (r.index tick) = f tick := by
  rw [index, h.get_slot _ (by omega), Nat.add_sub_cancel' hlo]

/-- Going once around a ring of `n` places from any of them meets each place once. -/
theorem sum_around (g : Nat → Nat) {n : Nat} (hn : 0 < n) (start : Nat) :
    ∑ k ∈ Finset.range n, g ((start + k) % n) = ∑ i ∈ Finset.range n, g i := by
  have hmaps : Set.MapsTo (fun k => (start + k) % n) (Finset.range n) (Finset.range n) :=
    fun k _ => Finset.mem_coe.mpr (Finset.mem_range.mpr (Nat.mod_lt _ hn))
  have hinj : Set.InjOn (fun k => (start + k) % n) (Finset.range n) := by
    intro j hj k hk hjk
    exact place_inj (Finset.mem_range.mp hj) (Finset.mem_range.mp hk) hjk
  exact Finset.sum_nbij _ hmaps hinj
    (Finset.surjOn_of_injOn_of_card_le _ hmaps hinj (le_refl _)) fun _ _ => rfl

/-- The total is the sum of all slots. -/
theorem Holds.sum_slots {r : TickRing} {f : Nat → Nat} (h : r.Holds f) :
    r.total = ∑ i ∈ Finset.range r.size, r.slots.get i := by
  rw [h.total_eq, ← sum_around r.slots.get r.size_pos r.oldestIndex]
  exact Finset.sum_congr rfl fun k hk => (h.get_slot k (Finset.mem_range.mp hk)).symm

theorem Holds.get_le_total {r : TickRing} {f : Nat → Nat} (h : r.Holds f) {i : Nat}
    (hi : i < r.size) : r.slots.get i ≤ r.total := by
  rw [h.sum_slots]
  exact Finset.single_le_sum (fun _ _ => Nat.zero_le _) (Finset.mem_range.mpr hi)

/-- Every slot is the slot of a tick in the window. -/
theorem exists_index_eq (r : TickRing) {i : Nat} (hi : i < r.size) :
    ∃ tick, r.oldestTick ≤ tick ∧ tick < r.oldestTick + r.size ∧ r.index tick = i := by
  refine ⟨r.oldestTick + (i + r.size - r.oldestIndex % r.size) % r.size, Nat.le_add_right _ _,
    Nat.add_lt_add_left (Nat.mod_lt _ r.size_pos) _, ?_⟩
  have hlt := Nat.mod_lt r.oldestIndex r.size_pos
  have hround : r.oldestIndex % r.size + (i + r.size - r.oldestIndex % r.size) = i + r.size := by
    omega
  rw [index, Nat.add_sub_cancel_left, Nat.add_mod_mod, ← Nat.mod_add_mod, hround,
    Nat.add_mod_right, Nat.mod_eq_of_lt hi]

namespace Represents

variable {r : TickRing} {span : Nat} {ops : List Op}

theorem size_eq (h : r.Represents span ops) : r.size = span + 1 := by
  rw [size, h.span_eq]

/-- A live update lies in the window. -/
theorem mem_window (h : r.Represents span ops) {u : Nat × Nat} (hu : u ∈ live span ops) :
    r.oldestTick ≤ u.1 ∧ u.1 ≤ r.oldestTick + span := by
  obtain ⟨hoffered, hle⟩ := List.mem_filter.mp hu
  obtain ⟨op, hop, htick⟩ := mem_offered hoffered
  have hbeyond := tick_le_horizon span hop
  rw [h.oldestTick_eq]
  exact ⟨of_decide_eq_true hle, by omega⟩

/-- The slot of a live update shows the live counts of its tick. -/
theorem get_index (h : r.Represents span ops) {u : Nat × Nat} (hu : u ∈ live span ops) :
    r.slots.get (r.index u.1) = UpdateLog.countAt (live span ops) u.1 := by
  obtain ⟨hlo, hhi⟩ := h.mem_window hu
  rw [h.holds.get_index hlo (by rw [h.size_eq]; omega), countAt_live (h.oldestTick_eq ▸ hlo)]

/-- A slot that no live update takes shows zero. -/
theorem get_free (h : r.Represents span ops) {i : Nat} (hi : i ≤ span)
    (hfree : ∀ u ∈ live span ops, r.index u.1 ≠ i) : r.slots.get i = 0 := by
  obtain ⟨tick, hlo, hhi, rfl⟩ := r.exists_index_eq (i := i) (by rw [h.size_eq]; omega)
  rw [h.holds.get_index hlo hhi, ← countAt_live (h.oldestTick_eq ▸ hlo), UpdateLog.countAt]
  have hnone : (live span ops).filter (·.1 = tick) = [] := by
    refine List.filter_eq_nil_iff.mpr ?_
    intro u hu htick
    exact hfree u hu (congrArg r.index (of_decide_eq_true htick))
  rw [hnone]
  rfl

/-- Live updates of different ticks do not share a slot. -/
theorem index_ne (h : r.Represents span ops) {u v : Nat × Nat} (hu : u ∈ live span ops)
    (hv : v ∈ live span ops) (hne : u.1 ≠ v.1) : r.index u.1 ≠ r.index v.1 := by
  obtain ⟨hulo, huhi⟩ := h.mem_window hu
  obtain ⟨hvlo, hvhi⟩ := h.mem_window hv
  have hsize := h.size_eq
  intro hshared
  have hoffset := place_inj (by omega) (by omega) hshared
  omega

end Represents

end WindowedStats.TickRing
