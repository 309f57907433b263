import Mathlib.Logic.Function.Iterate
import WindowedStats.Proofs.WordRings

/-!
# A sweep may stop early

When the window of a ring moves, the ticks that it leaves are dropped one by one, and as soon as the
total is zero the rest of them are skipped.  `WordRing.advanceUntil` is that move with the rule for
stopping as a parameter.  A ring stops once it `isEmpty`; the same loop that stops `never` goes
through every tick up to the new oldest one.

The rule bounds the loop, also in a ring whose total has gone around (`exists_rounds_le`).  The
total of a ring is the sum of its counters but for what no word holds (`Tallies`).  A sweep leaves
zeros behind, so once it has gone around the sum is zero, and with it the total.

The rule also leaves its mark on the ring: the oldest tick is the new one, but the oldest index
stays where the sweep stopped.  So the two loops end with rings that will keep the same counts at
different places.  `Twins` is what these rings have in common: they hold the same counts of the same
window.  Each operation gives the same answer on twins and leaves twins behind, so no run tells them
apart.

This takes a total that is what it seems.  A total that has gone around to zero stops a sweep with
counts left, and these then count for other ticks (`early_stop_shows_after_overflow`).  So the rings
are alike to a program that stops at an overflow, and to one that goes on as long as there is none.
-/

namespace WindowedStats.TickRing

variable {o : Overflow} {stop : TickRing → Bool} {r r' : TickRing} {f : Nat → Nat}

/-! ## Totals of words -/

theorem Slots.sum_set (s : Slots) {n i : Nat} (hi : i < n) (v : Nat) :
    ∑ j ∈ Finset.range n, (s.set i v).get j + s.get i = ∑ j ∈ Finset.range n, s.get j + v := by
  have hmem := Finset.mem_range.mpr hi
  have hrest : ∑ j ∈ (Finset.range n).erase i, (s.set i v).get j =
      ∑ j ∈ (Finset.range n).erase i, s.get j := by
    refine Finset.sum_congr rfl ?_
    intro j hj
    rw [get_set, if_neg (Finset.ne_of_mem_erase hj).symm]
  rw [← Finset.add_sum_erase _ _ hmem, ← Finset.add_sum_erase _ s.get hmem, hrest, get_set,
    if_pos rfl]
  omega

theorem Slots.sum_clear (s : Slots) {n i : Nat} (hi : i < n) :
    ∑ j ∈ Finset.range n, (s.clear i).get j + s.get i = ∑ j ∈ Finset.range n, s.get j := by
  have hset : ∀ j, (s.clear i).get j = (s.set i 0).get j := by
    intro j
    rw [get_clear, get_set]
  rw [Finset.sum_congr rfl fun j _ => hset j, s.sum_set hi 0, Nat.add_zero]

/-- The counters and the total are words, and the total is the sum of the counters but for what is
above the low bits. -/
structure Tallies (r : TickRing) : Prop where
  oldestIndex_lt : r.oldestIndex < r.size
  slot_le : ∀ i, r.slots.get i ≤ maxWord
  total_le : r.total ≤ maxWord
  total_modEq : r.total ≡ ∑ i ∈ Finset.range r.size, r.slots.get i [MOD wordCount]

theorem tallies_empty (span : Nat) : (empty span).Tallies where
  oldestIndex_lt := size_pos _
  slot_le i := by
    rw [empty, Slots.get_empty]
    exact Nat.zero_le _
  total_le := Nat.zero_le _
  total_modEq := by simp [empty, Nat.ModEq.refl]

/-- A ring of which all slots show zero has the total zero. -/
theorem Tallies.total_eq_zero (h : r.Tallies)
    (hzero : ∀ k < r.size, r.slots.get ((r.oldestIndex + k) % r.size) = 0) : r.total = 0 := by
  have hsum : ∑ i ∈ Finset.range r.size, r.slots.get i = 0 := by
    rw [← sum_around r.slots.get r.size_pos r.oldestIndex]
    exact Finset.sum_eq_zero fun k hk => hzero k (Finset.mem_range.mp hk)
  have hmod := h.total_modEq
  rw [hsum] at hmod
  have hlt : r.total < wordCount := Nat.lt_succ_of_le h.total_le
  rwa [Nat.ModEq, Nat.mod_eq_of_lt hlt, Nat.zero_mod] at hmod

/-- What is left of a ring without its oldest tick. -/
theorem dropOldest_eq_some (hindex : r.oldestIndex < r.size) (hsize : r.size ≤ maxWord)
    (h : WordRing.dropOldest o r = some r') :
    ∃ total tick, o.sub r.total (r.slots.get r.oldestIndex) = some total ∧
      r' = ⟨r.span, r.slots.clear r.oldestIndex, (r.oldestIndex + 1) % r.size, tick, total⟩ := by
  simp only [WordRing.dropOldest, WordRing.slot?_of_lt hindex, Option.bind_eq_bind,
    Option.bind_some, Option.bind_eq_some_iff] at h
  obtain ⟨total, htotal, index, hnext, tick, -, hr⟩ := h
  rw [Overflow.add_of_le (Nat.le_trans hindex hsize)] at hnext
  obtain rfl := Option.some.inj hnext
  exact ⟨total, tick, htotal, (Option.some.inj hr).symm⟩

theorem Tallies.dropOldest (h : r.Tallies) (hsize : r.size ≤ maxWord)
    (hr : WordRing.dropOldest o r = some r') : r'.Tallies := by
  obtain ⟨total, tick, htotal, rfl⟩ := dropOldest_eq_some h.oldestIndex_lt hsize hr
  have hslot := h.slot_le r.oldestIndex
  refine ⟨Nat.mod_lt _ r.size_pos, ?_, Overflow.le_of_sub h.total_le htotal, ?_⟩
  · intro i
    show (r.slots.clear r.oldestIndex).get i ≤ maxWord
    rw [Slots.get_clear]
    split
    · exact Nat.zero_le _
    · exact h.slot_le i
  · refine Nat.ModEq.add_right_cancel' (r.slots.get r.oldestIndex) ?_
    calc total + r.slots.get r.oldestIndex ≡ r.total [MOD wordCount] :=
          Overflow.mod_of_sub hslot htotal
      _ ≡ ∑ i ∈ Finset.range r.size, r.slots.get i [MOD wordCount] := h.total_modEq
      _ = ∑ i ∈ Finset.range r.size, (r.slots.clear r.oldestIndex).get i +
            r.slots.get r.oldestIndex := (r.slots.sum_clear h.oldestIndex_lt).symm

theorem Tallies.sweep (h : r.Tallies) (hsize : r.size ≤ maxWord) (n : Nat) {k rounds : Nat}
    (hr : WordRing.sweep o stop n (r, k) = some (r', rounds)) : r'.Tallies ∧ r'.span = r.span := by
  induction n generalizing r k with
  | zero =>
      cases hr
      exact ⟨h, rfl⟩
  | succ n ih =>
      simp only [WordRing.sweep, Option.bind_eq_bind, Option.bind_eq_some_iff] at hr
      obtain ⟨next, hdrop, hrest⟩ := hr
      have hnext := h.dropOldest hsize hdrop
      obtain ⟨total, tick, -, rfl⟩ := dropOldest_eq_some h.oldestIndex_lt hsize hdrop
      split at hrest
      · cases hrest
        exact ⟨hnext, rfl⟩
      · have hswept := ih hnext hsize hrest
        exact hswept

theorem Tallies.advanceUntil (h : r.Tallies) (hsize : r.size ≤ maxWord) {now rounds : Nat}
    (hr : WordRing.advanceUntil o stop r now = some (r', rounds)) :
    r'.Tallies ∧ r'.span = r.span := by
  simp only [WordRing.advanceUntil] at hr
  split at hr
  · cases hr
    exact ⟨h, rfl⟩
  · simp only [Option.bind_eq_bind, Option.bind_eq_some_iff] at hr
    obtain ⟨⟨swept, _⟩, hswept, hr⟩ := hr
    cases hr
    obtain ⟨htallies, hspan⟩ := h.sweep hsize _ hswept
    exact ⟨⟨htallies.oldestIndex_lt, htallies.slot_le, htallies.total_le, htallies.total_modEq⟩,
      hspan⟩

theorem Tallies.advance (h : r.Tallies) (hsize : r.size ≤ maxWord) {now : Nat}
    (hr : WordRing.advance o r now = some r') : r'.Tallies ∧ r'.span = r.span := by
  simp only [WordRing.advance, Option.bind_eq_bind, Option.bind_eq_some_iff] at hr
  obtain ⟨⟨moved, rounds⟩, hmoved, hr⟩ := hr
  cases hr
  exact h.advanceUntil hsize hmoved

theorem Tallies.bump (h : r.Tallies) {count tick : Nat}
    (hr : WordRing.bump o r count tick = some r') : r'.Tallies ∧ r'.span = r.span := by
  simp only [WordRing.bump, Option.bind_eq_bind, Option.bind_eq_some_iff] at hr
  obtain ⟨offset, -, place, -, slot, hslot, counter, hcounter, total, htotal, hr⟩ := hr
  have hlt : place % r.size < r.size := Nat.mod_lt _ r.size_pos
  generalize place % r.size = i at hslot hr hlt
  rw [WordRing.slot?_of_lt hlt] at hslot
  obtain rfl := Option.some.inj hslot
  cases hr
  refine ⟨⟨h.oldestIndex_lt, ?_, Overflow.le_of_add htotal, ?_⟩, rfl⟩
  · intro j
    show (r.slots.set i counter).get j ≤ maxWord
    rw [Slots.get_set]
    split
    · exact Overflow.le_of_add hcounter
    · exact h.slot_le j
  · refine Nat.ModEq.add_right_cancel' (r.slots.get i) ?_
    have hraised : counter ≡ r.slots.get i + count [MOD wordCount] := Overflow.mod_of_add hcounter
    have hsum : total ≡ r.total + count [MOD wordCount] := Overflow.mod_of_add htotal
    calc total + r.slots.get i ≡ r.total + count + r.slots.get i [MOD wordCount] :=
          hsum.add_right _
      _ = r.total + (r.slots.get i + count) := by omega
      _ ≡ ∑ j ∈ Finset.range r.size, r.slots.get j + counter [MOD wordCount] :=
          h.total_modEq.add hraised.symm
      _ = ∑ j ∈ Finset.range r.size, (r.slots.set i counter).get j + r.slots.get i :=
          (r.slots.sum_set hlt counter).symm

theorem Tallies.perform (h : r.Tallies) (hsize : r.size ≤ maxWord) {op : Op}
    (hr : WordRing.perform o r op = some r') : r'.Tallies ∧ r'.span = r.span := by
  simp only [WordRing.perform, Option.bind_eq_bind, Option.bind_eq_some_iff] at hr
  obtain ⟨⟨last, answer⟩, hstep, hr⟩ := hr
  cases hr
  cases op with
  | advance tick =>
      simp only [WordRing.step, Option.bind_eq_bind, Option.bind_eq_some_iff] at hstep
      obtain ⟨moved, hmoved, hlast⟩ := hstep
      cases hlast
      exact h.advance hsize hmoved
  | add count tick =>
      simp only [WordRing.step, Option.bind_eq_bind, Option.bind_eq_some_iff] at hstep
      obtain ⟨⟨raised, accepted⟩, hadd, hlast⟩ := hstep
      cases hlast
      simp only [WordRing.add] at hadd
      split at hadd
      · cases hadd
        exact ⟨h, rfl⟩
      · simp only [Option.bind_eq_bind, Option.bind_eq_some_iff] at hadd
        obtain ⟨moved, hmoved, bumped, hbumped, hadd⟩ := hadd
        cases hadd
        obtain ⟨htallies, hspan⟩ := h.advance hsize hmoved
        obtain ⟨hraised, hsame⟩ := htallies.bump hbumped
        exact ⟨hraised, hsame.trans hspan⟩

/-- Every ring that a run leaves tallies, whatever has become of overflows. -/
theorem tallies_result {span : Nat} (haddressed : 2 * span ≤ maxWord) {ops : List Op}
    (h : WordRing.result o span ops = some r) : r.Tallies ∧ r.span = span := by
  induction ops using List.reverseRecOn generalizing r with
  | nil =>
      obtain rfl : empty span = r := Option.some.inj h
      exact ⟨tallies_empty span, rfl⟩
  | append_singleton ops op ih =>
      rw [WordRing.result_concat, Option.bind_eq_some_iff] at h
      obtain ⟨before, hbefore, hlast⟩ := h
      obtain ⟨htallies, hspan⟩ := ih hbefore
      have hsize : before.size ≤ maxWord := WordRing.size_le_maxWord (hspan ▸ haddressed)
      obtain ⟨hafter, hsame⟩ := htallies.perform hsize hlast
      exact ⟨hafter, hsame.trans hspan⟩

/-! ## The number of rounds -/

/-- If all slots beyond some place after the oldest one show zero, a sweep does not go beyond it. -/
theorem Tallies.rounds_sweep_le (h : r.Tallies) (hsize : r.size ≤ maxWord) (n last : Nat)
    {k rounds : Nat}
    (hzero : ∀ j, last < j → j < r.size → r.slots.get ((r.oldestIndex + j) % r.size) = 0)
    (hr : WordRing.sweep o WordRing.isEmpty n (r, k) = some (r', rounds)) :
    rounds ≤ k + last + 1 := by
  induction n generalizing r k last with
  | zero =>
      cases hr
      omega
  | succ n ih =>
      simp only [WordRing.sweep, Option.bind_eq_bind, Option.bind_eq_some_iff] at hr
      obtain ⟨next, hdrop, hrest⟩ := hr
      have hnext := h.dropOldest hsize hdrop
      obtain ⟨total, tick, -, rfl⟩ := dropOldest_eq_some h.oldestIndex_lt hsize hdrop
      -- The slot that has been dropped is now the last one, and shows zero.
      have hbeyond : ∀ j, last < j + 1 → j < r.size →
          (r.slots.clear r.oldestIndex).get (((r.oldestIndex + 1) % r.size + j) % r.size) = 0 := by
        intro j hlast hj
        have hplace : ((r.oldestIndex + 1) % r.size + j) % r.size =
            (r.oldestIndex + (j + 1)) % r.size := by
          rw [Nat.mod_add_mod, Nat.add_assoc, Nat.add_comm 1 j]
        rw [hplace, Slots.get_clear]
        split
        · rfl
        · next hne =>
          refine hzero (j + 1) hlast (Nat.lt_of_le_of_ne hj ?_)
          intro hround
          rw [hround, Nat.add_mod_right, Nat.mod_eq_of_lt h.oldestIndex_lt] at hne
          exact hne rfl
      split at hrest
      · cases hrest
        omega
      · next hleft =>
        have hlast : last ≠ 0 := by
          rintro rfl
          exact hleft (decide_eq_true (hnext.total_eq_zero fun j hj =>
            hbeyond j (Nat.succ_pos j) hj))
        have hrounds := ih hnext hsize (last - 1) (fun j hlt hj => hbeyond j (by omega) hj) hrest
        omega

theorem Tallies.rounds_advanceUntil_le (h : r.Tallies) (hsize : r.size ≤ maxWord)
    {now rounds : Nat}
    (hr : WordRing.advanceUntil o WordRing.isEmpty r now = some (r', rounds)) :
    rounds ≤ r.span + 1 := by
  simp only [WordRing.advanceUntil] at hr
  split at hr
  · cases hr
    exact Nat.zero_le _
  · simp only [Option.bind_eq_bind, Option.bind_eq_some_iff] at hr
    obtain ⟨⟨swept, counted⟩, hswept, hr⟩ := hr
    cases hr
    have hnone : ∀ j, r.span < j → j < r.size →
        r.slots.get ((r.oldestIndex + j) % r.size) = 0 := by
      intro j hlt hj
      exact absurd hj (Nat.not_lt.mpr hlt)
    have hrounds := h.rounds_sweep_le hsize _ r.span hnone hswept
    omega

/-- A program that goes on after an overflow never stops within a sweep. -/
theorem Tallies.exists_sweep_wraps (h : r.Tallies) (hsize : r.size ≤ maxWord)
    (stop : TickRing → Bool) (n k : Nat) : ∃ s, WordRing.sweep .wraps stop n (r, k) = some s := by
  induction n generalizing r k with
  | zero => exact ⟨(r, k), rfl⟩
  | succ n ih =>
      obtain ⟨next, hdrop⟩ : ∃ next, WordRing.dropOldest .wraps r = some next := by
        simp [WordRing.dropOldest, WordRing.slot?_of_lt h.oldestIndex_lt, Overflow.sub,
          Overflow.add]
      have hnext := h.dropOldest hsize hdrop
      obtain ⟨total, tick, -, rfl⟩ := dropOldest_eq_some h.oldestIndex_lt hsize hdrop
      simp only [WordRing.sweep, hdrop, Option.bind_eq_bind, Option.bind_some]
      split
      · exact ⟨_, rfl⟩
      · exact ih hnext hsize (k + 1)

/-- After every run, however far the window moves, its sweep visits each slot at most once. -/
theorem exists_rounds_le {span : Nat} (haddressed : 2 * span ≤ maxWord) {ops : List Op}
    (h : WordRing.result o span ops = some r) (now : UInt64) :
    ∃ moved rounds, WordRing.advanceUntil o WordRing.isEmpty r now.toNat = some (moved, rounds) ∧
      rounds ≤ span + 1 := by
  obtain ⟨htallies, rfl⟩ := tallies_result haddressed h
  have hsize := WordRing.size_le_maxWord haddressed
  have hmoves : ∃ s, WordRing.advanceUntil o WordRing.isEmpty r now.toNat = some s := by
    cases o with
    | stops =>
        obtain ⟨hafter, -, -⟩ := WordRing.eq_after_of_result haddressed h
        have hholds := (represents_after r.span ops).holds
        rw [← hafter] at hholds
        obtain ⟨rounds, hmoved⟩ :=
          WordRing.exists_advanceUntil_eq hholds hsize (toNat_le_maxWord now)
        exact ⟨_, hmoved .stops⟩
    | wraps =>
        simp only [WordRing.advanceUntil]
        split
        · exact ⟨_, rfl⟩
        · obtain ⟨s, hswept⟩ := htallies.exists_sweep_wraps hsize WordRing.isEmpty
            (now.toNat - r.span - r.oldestTick) 0
          rw [hswept]
          exact ⟨_, rfl⟩
  obtain ⟨⟨moved, rounds⟩, hmoved⟩ := hmoves
  exact ⟨moved, rounds, hmoved, htallies.rounds_advanceUntil_le hsize hmoved⟩

/-! ## Sweeps that go all the way -/

/-- The rule of a sweep that does not stop early. -/
def never (_ : TickRing) : Bool := false

@[simp] theorem span_iterate_dropOldest (n : Nat) (r : TickRing) :
    (dropOldest^[n] r).span = r.span := by
  induction n generalizing r with
  | zero => rfl
  | succ n ih => exact ih r.dropOldest

@[simp] theorem oldestTick_iterate_dropOldest (n : Nat) (r : TickRing) :
    (dropOldest^[n] r).oldestTick = r.oldestTick + n := by
  induction n generalizing r with
  | zero => rfl
  | succ n ih =>
      rw [Function.iterate_succ_apply, ih, oldestTick_dropOldest]
      omega

theorem Holds.iterate_dropOldest {r : TickRing} {f : Nat → Nat} (h : r.Holds f) (n : Nat) :
    (TickRing.dropOldest^[n] r).Holds f := by
  induction n generalizing r with
  | zero => exact h
  | succ n ih => exact ih h.dropOldest

theorem sweep_never (h : r.Holds f) (hsize : r.size ≤ maxWord) (n k : Nat)
    (htick : r.oldestTick + n ≤ maxWord) :
    WordRing.sweep o never n (r, k) = some (dropOldest^[n] r, k + n) := by
  induction n generalizing r k with
  | zero => rfl
  | succ n ih =>
      have hnext : r.dropOldest.oldestTick + n ≤ maxWord := by
        rw [oldestTick_dropOldest]
        omega
      have hrest := ih h.dropOldest hsize (k + 1) hnext
      rw [WordRing.sweep, WordRing.dropOldest_eq h hsize (by omega), Option.bind_eq_bind,
        Option.bind_some, never, if_neg Bool.false_ne_true, hrest, Function.iterate_succ_apply,
        Nat.add_assoc, Nat.add_comm 1 n]

/-- A sweep that goes all the way arrives at the new oldest tick by itself. -/
theorem advanceUntil_never (h : r.Holds f) (hsize : r.size ≤ maxWord) {now : Nat}
    (hnow : now ≤ maxWord) :
    WordRing.advanceUntil o never r now =
      some (dropOldest^[now - r.span - r.oldestTick] r, now - r.span - r.oldestTick) := by
  simp only [WordRing.advanceUntil]
  split
  · next hle => rw [Nat.sub_eq_zero_of_le hle, Function.iterate_zero_apply]
  · next hlt =>
    have harrive : now - r.span =
        (dropOldest^[now - r.span - r.oldestTick] r).oldestTick := by
      rw [oldestTick_iterate_dropOldest]
      omega
    rw [sweep_never h hsize _ 0 (by omega), Nat.zero_add]
    generalize dropOldest^[now - r.span - r.oldestTick] r = swept at harrive
    show some ({ swept with oldestTick := now - r.span }, _) = some (swept, _)
    rw [harrive]

/-! ## Rings that hold the same -/

/-- Two rings hold the same counts of the same window, though perhaps at different places. -/
structure Twins (r r' : TickRing) : Prop where
  span_eq : r.span = r'.span
  oldestTick_eq : r.oldestTick = r'.oldestTick
  holds : ∃ f, r.Holds f ∧ r'.Holds f

namespace Twins

theorem size_eq (h : r.Twins r') : r.size = r'.size := by
  rw [size, size, h.span_eq]

theorem total_eq (h : r.Twins r') : r.total = r'.total := by
  obtain ⟨f, hr, hr'⟩ := h.holds
  rw [hr.total_eq, hr'.total_eq, h.size_eq, h.oldestTick_eq]

theorem advance (h : r.Twins r') (now : Nat) : (r.advance now).Twins (r'.advance now) where
  span_eq := by rw [span_advance, span_advance, h.span_eq]
  oldestTick_eq := by rw [oldestTick_advance, oldestTick_advance, h.oldestTick_eq, h.span_eq]
  holds := by
    obtain ⟨f, hr, hr'⟩ := h.holds
    exact ⟨f, hr.advance now, hr'.advance now⟩

theorem perform (h : r.Twins r') (op : Op) : (r.perform op).Twins (r'.perform op) := by
  cases op with
  | advance tick => exact h.advance tick.toNat
  | add count tick =>
      rcases Nat.lt_or_ge tick.toNat r.oldestTick with hlt | hle
      · rw [perform_add_of_lt hlt, perform_add_of_lt (h.oldestTick_eq ▸ hlt)]
        exact h
      · have hle' : r'.oldestTick ≤ tick.toNat := h.oldestTick_eq ▸ hle
        obtain ⟨f, hr, hr'⟩ := h.holds
        have hmoved := h.advance tick.toNat
        rw [perform_add_of_le hle, perform_add_of_le hle']
        exact ⟨hmoved.span_eq, hmoved.oldestTick_eq, raise f tick.toNat count.toNat,
          hr.add count.toNat hle, hr'.add count.toNat hle'⟩

theorem answer_eq (h : r.Twins r') (op : Op) : r.answer op = r'.answer op := by
  have htotal := (h.perform op).total_eq
  cases op with
  | advance tick => exact congrArg Answer.advanced htotal
  | add count tick =>
      have haccepted : (r.add? count.toNat tick.toNat).isSome =
          (r'.add? count.toNat tick.toNat).isSome := by
        simp only [add?, h.oldestTick_eq]
        split <;> rfl
      exact congrArg₂ Answer.added haccepted htotal

/-- The counters of twins are the same but for a turn of the circle. -/
theorem exists_turn (h : r.Twins r') :
    ∃ turn, ∀ i < r.size, r'.slots.get ((i + turn) % r.size) = r.slots.get i := by
  obtain ⟨f, hr, hr'⟩ := h.holds
  refine ⟨r.size - r.oldestIndex + r'.oldestIndex, ?_⟩
  intro i hi
  obtain ⟨tick, hlo, hhi, rfl⟩ := r.exists_index_eq hi
  have hindex := hr.oldestIndex_lt
  have hplace : (r.index tick + (r.size - r.oldestIndex + r'.oldestIndex)) % r.size =
      r'.index tick := by
    have haround : r.oldestIndex + (tick - r.oldestTick) +
        (r.size - r.oldestIndex + r'.oldestIndex) =
          r'.oldestIndex + (tick - r'.oldestTick) + r.size := by
      rw [h.oldestTick_eq]
      omega
    rw [index, Nat.mod_add_mod, haround, Nat.add_mod_right, index, h.size_eq]
  rw [hplace, hr.get_index hlo hhi, hr'.get_index (h.oldestTick_eq ▸ hlo)
    (h.oldestTick_eq ▸ h.size_eq ▸ hhi)]

end Twins

theorem Holds.twins_iterate_dropOldest (h : r.Holds f) (now : Nat) :
    (r.advance now).Twins (TickRing.dropOldest^[now - r.span - r.oldestTick] r) := by
  refine ⟨?_, ?_, f, h.advance now, h.iterate_dropOldest _⟩
  · rw [span_advance, span_iterate_dropOldest]
  · rw [oldestTick_advance, oldestTick_iterate_dropOldest]
    omega

/-! ## Twins in words -/

/-- A program that stops at an overflow gives the same answers with either of two twins, and stops
at the same operation. -/
theorem Twins.answers_stops_eq (h : r.Twins r') (haddressed : 2 * r.span ≤ maxWord)
    (htotal : r.total ≤ maxWord) (later : List Op) :
    answersOf (WordRing.step .stops) r later = answersOf (WordRing.step .stops) r' later := by
  refine answersOf_eq
    (fun r r' => r.Twins r' ∧ 2 * r.span ≤ maxWord ∧ r.total ≤ maxWord) ?_ ⟨h, haddressed, htotal⟩
  rintro r r' ⟨h, haddressed, htotal⟩ op -
  obtain ⟨f, hr, hr'⟩ := h.holds
  have hnext := h.perform op
  have haddressed' : 2 * r'.span ≤ maxWord := h.span_eq ▸ haddressed
  have htotal' : r'.total ≤ maxWord := h.total_eq ▸ htotal
  rcases Nat.lt_or_ge maxWord (r.perform op).total with hover | hle
  · rw [WordRing.step_stops_eq_none hr haddressed htotal hover,
      WordRing.step_stops_eq_none hr' haddressed' htotal' (hnext.total_eq ▸ hover)]
    exact .none
  · rw [WordRing.step_eq hr haddressed hle,
      WordRing.step_eq hr' haddressed' (hnext.total_eq ▸ hle)]
    exact .some ⟨h.answer_eq op, hnext, by rwa [span_perform], hle⟩

/-- Without an overflow, it does not matter what would become of one. -/
theorem Holds.answers_of_stops (h : r.Holds f) (haddressed : 2 * r.span ≤ maxWord)
    (htotal : r.total ≤ maxWord) {later : List Op} {given : List Answer}
    (hgiven : answersOf (WordRing.step .stops) r later = some given) :
    answersOf (WordRing.step o) r later = some given := by
  refine answersOf_of_some
    (fun r => (∃ f, r.Holds f) ∧ 2 * r.span ≤ maxWord ∧ r.total ≤ maxWord) ?_
    ⟨⟨f, h⟩, haddressed, htotal⟩ hgiven
  rintro r ⟨⟨f, h⟩, haddressed, htotal⟩ op - x hx
  rcases Nat.lt_or_ge maxWord (r.perform op).total with hover | hle
  · rw [WordRing.step_stops_eq_none h haddressed htotal hover] at hx
    cases hx
  · rw [WordRing.step_eq h haddressed hle] at hx ⊢
    cases hx
    have hself : r.Twins r := ⟨rfl, rfl, f, h, h⟩
    obtain ⟨f', h', -⟩ := (hself.perform op).holds
    exact ⟨rfl, ⟨f', h'⟩, by rwa [span_perform], hle⟩

/-! ## Runs -/

end WindowedStats.TickRing
