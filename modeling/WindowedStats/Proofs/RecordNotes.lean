import WindowedStats.Proofs.RingContents
import WindowedStats.Queue.Record

/-!
# What a record makes of a fact

Taking note of a fact does two things to a record that have nothing to do with each other: the fact
is counted in one of the three rates, and it is tallied in the counters and histograms.  Only the
rates know of time, and only they leave events in the log.  `note_fst` and `note_snd` say this once.

From there it is a short way to `note_comm`: the order in which a record takes note of two facts of
one instant does not matter.  Facts of different kinds go to different places, additions and drops
of one instant cannot be told apart, and two removals meet in the histograms only, where the order
of the values is of no account.
-/

namespace WindowedStats

open QueueRecord (Fact)

/-! ## Two updates of one instant -/

namespace RateTracker

theorem update_of_lt {t : RateTracker} {millis : Nat}
    (h : millis / t.tickMillis < t.ring.oldestTick) (count : Nat) :
    t.update count millis = (t, some ⟨millis, count⟩) := by
  rw [update, TickRing.add?_of_lt h]

theorem update_of_le {t : RateTracker} {millis : Nat}
    (h : t.ring.oldestTick ≤ millis / t.tickMillis) (count : Nat) :
    t.update count millis =
      ({ t with
          ring := (t.ring.advance (millis / t.tickMillis)).bump count (millis / t.tickMillis) },
        none) := by
  rw [update, TickRing.add?_of_le h]

/-- An update is late exactly if an earlier one of the same instant was. -/
theorem late_again (t : RateTracker) (count millis : Nat) :
    ((t.update count millis).1.update count millis).2 = (t.update count millis).2 := by
  rcases Nat.lt_or_ge (millis / t.tickMillis) t.ring.oldestTick with hlate | hin
  · rw [update_of_lt hlate]
    exact congrArg Prod.snd (update_of_lt hlate count)
  · have hnext : ((t.ring.advance (millis / t.tickMillis)).bump count
        (millis / t.tickMillis)).oldestTick ≤ millis / t.tickMillis :=
      (TickRing.tick_mem_advance hin).1
    rw [update_of_le hin, update_of_le hnext]

end RateTracker

/-! ## The parts of a note -/

namespace QueueRates

/-- The rates after a fact is counted. -/
def count (r : QueueRates) (fact : Fact) (millis : Nat) : QueueRates :=
  match fact with
  | .addition => { r with add := (r.add.update 1 millis).1 }
  | .removal _ _ => { r with remove := (r.remove.update 1 millis).1 }
  | .drop => { r with drop := (r.drop.update 1 millis).1 }

/-- The update that is too late if a fact is counted. -/
def late (r : QueueRates) (fact : Fact) (millis : Nat) : Option LateUpdate :=
  match fact with
  | .addition => (r.add.update 1 millis).2
  | .removal _ _ => (r.remove.update 1 millis).2
  | .drop => (r.drop.update 1 millis).2

theorem count_comm (r : QueueRates) (a b : Fact) (millis : Nat) :
    (r.count a millis).count b millis = (r.count b millis).count a millis := by
  cases a <;> cases b <;> rfl

theorem late_count (r : QueueRates) (a b : Fact) (millis : Nat) :
    (r.count a millis).late b millis = r.late b millis := by
  -- Only the rate of the same kind has moved, and that by an update of the same instant.
  cases a with
  | addition =>
      cases b with
      | addition => exact r.add.tracker.late_again 1 millis
      | removal _ _ => rfl
      | drop => rfl
  | removal _ _ =>
      cases b with
      | addition => rfl
      | removal _ _ => exact r.remove.tracker.late_again 1 millis
      | drop => rfl
  | drop =>
      cases b with
      | addition => rfl
      | removal _ _ => rfl
      | drop => exact r.drop.tracker.late_again 1 millis

end QueueRates

namespace QueueRecord

/-- The record after a fact is tallied, with its rates as they were. -/
def tallied (q : QueueRecord) (now : Duration) : Fact → QueueRecord
  | .addition => { q with added := q.added + 1, firstAddedAt := some (q.firstAddedAt.getD now) }
  | .removal size wait =>
    { q with
      removed := q.removed + 1
      sizeAtRemove := q.sizeAtRemove.push (sizeMark size)
      waitTime := wait.elim q.waitTime fun w => q.waitTime.map (·.push (waitMark w)) }
  | .drop => { q with dropped := q.dropped + 1 }

theorem note_fst (q : QueueRecord) (now : Duration) (fact : Fact) :
    (q.note now fact).1 =
      { q.tallied now fact with rates := q.rates.map (·.count fact now.counterMillis) } := by
  obtain ⟨added, removed, dropped, firstAddedAt, rates, sizeAtRemove, waitTime⟩ := q
  cases fact with
  | addition => cases rates <;> rfl
  | removal size wait => cases rates <;> cases wait <;> rfl
  | drop => cases rates <;> rfl

/-- Tallying does not look at the rates. -/
theorem tallied_rates (q : QueueRecord) (now : Duration) (fact : Fact) (rates : Option QueueRates) :
    ({ q with rates := rates } : QueueRecord).tallied now fact =
      { q.tallied now fact with rates := rates } := by
  cases fact <;> rfl

theorem note_snd (q : QueueRecord) (now : Duration) (fact : Fact) :
    (q.note now fact).2 = lateEvents (q.rates.bind (·.late fact now.counterMillis)) := by
  obtain ⟨added, removed, dropped, firstAddedAt, rates, sizeAtRemove, waitTime⟩ := q
  cases rates with
  | none => cases fact <;> rfl
  | some r => cases fact <;> rfl

end QueueRecord

/-! ## The order of values in a histogram -/

/-- Functions that commute may be applied to places of a list in either order. -/
theorem modify_comm {α : Type} {f g : α → α} (h : ∀ a, g (f a) = f (g a)) (l : List α)
    (i j : Nat) : (l.modify i f).modify j g = (l.modify j g).modify i f := by
  apply List.ext_getElem (by simp only [List.length_modify])
  intro k hk hk'
  simp only [List.getElem_modify]
  split
  · split
    · exact h _
    · rfl
  · rfl

namespace Histogram

/-- The histogram after a value that some slot holds. -/
def accept (h : Histogram) (v : Int) : Histogram :=
  { h with
    tally := { h.tally with
      counts := h.tally.counts.modify (h.tally.thresholds.slot v) (· + 1)
      length_counts := by rw [List.length_modify, h.tally.length_counts] }
    sum := h.sum + v
    accepted := h.accepted + 1
    least := some (h.least.elim v (min · v))
    greatest := some (h.greatest.elim v (max · v)) }

theorem push_eq (h : Histogram) (v : Int) :
    h.push v =
      if h.tally.thresholds.contains v then h.accept v
      else { h with discarded := h.discarded + 1 } := by
  simp only [push, record, Tally.count?]
  by_cases hv : h.tally.thresholds.contains v = true
  · simp only [if_pos hv]
    rfl
  · simp only [if_neg hv]

theorem elim_comm {f : Int → Int → Int} (hcomm : ∀ a b, f a b = f b a)
    (hassoc : ∀ a b c, f (f a b) c = f a (f b c)) (x : Option Int) (v w : Int) :
    f (x.elim v (f · v)) w = f (x.elim w (f · w)) v := by
  cases x with
  | none => exact hcomm v w
  | some a =>
      show f (f a v) w = f (f a w) v
      rw [hassoc, hcomm v w, ← hassoc]

theorem accept_comm (h : Histogram) (v w : Int) : (h.accept v).accept w = (h.accept w).accept v := by
  simp only [accept, mk.injEq, Tally.mk.injEq, Option.some.injEq, Option.elim_some, true_and,
    and_true]
  refine ⟨modify_comm (fun _ => rfl) _ _ _, ?_, ?_, ?_⟩
  · exact Int.add_right_comm _ _ _
  · exact elim_comm Int.min_comm Int.min_assoc h.least v w
  · exact elim_comm Int.max_comm Int.max_assoc h.greatest v w

theorem push_comm (h : Histogram) (v w : Int) : (h.push v).push w = (h.push w).push v := by
  have hthresholds : ∀ u, (h.push u).tally.thresholds = h.tally.thresholds := by
    intro u
    rw [push_eq]
    split <;> rfl
  rw [push_eq (h.push v), push_eq (h.push w), hthresholds, hthresholds, push_eq, push_eq]
  split
  · split
    · exact h.accept_comm v w
    · rfl
  · split <;> rfl

end Histogram

/-! ## Two facts of one instant -/

namespace QueueRecord

theorem pushes_comm (h : Option Histogram) (v w : Option Duration) :
    w.elim (v.elim h fun d => h.map (·.push (waitMark d)))
        (fun d => (v.elim h fun d => h.map (·.push (waitMark d))).map (·.push (waitMark d))) =
      v.elim (w.elim h fun d => h.map (·.push (waitMark d)))
        fun d => (w.elim h fun d => h.map (·.push (waitMark d))).map (·.push (waitMark d)) := by
  cases v with
  | none => rfl
  | some v =>
      cases w with
      | none => rfl
      | some w =>
          cases h with
          | none => rfl
          | some h => exact congrArg some (h.push_comm _ _)

theorem tallied_comm (q : QueueRecord) (now : Duration) (a b : Fact) :
    (q.tallied now a).tallied now b = (q.tallied now b).tallied now a := by
  cases a with
  | addition => cases b <;> rfl
  | drop => cases b <;> rfl
  | removal size wait =>
      cases b with
      | addition => rfl
      | drop => rfl
      | removal size' wait' =>
          simp only [tallied, mk.injEq, true_and]
          exact ⟨q.sizeAtRemove.push_comm _ _, pushes_comm q.waitTime wait wait'⟩

theorem note_comm (q : QueueRecord) (now : Duration) (a b : Fact) :
    ((q.note now a).1.note now b).1 = ((q.note now b).1.note now a).1 := by
  have hboth : ∀ c d : Fact, ((q.note now c).1.note now d).1 =
      { (q.tallied now c).tallied now d with
        rates := q.rates.map fun r =>
          (r.count c now.counterMillis).count d now.counterMillis } := by
    intro c d
    rw [note_fst, note_fst, tallied_rates, Option.map_map]
    rfl
  have hcount : (fun r : QueueRates => (r.count a now.counterMillis).count b now.counterMillis) =
      fun r => (r.count b now.counterMillis).count a now.counterMillis :=
    funext fun r => r.count_comm a b now.counterMillis
  rw [hboth a b, hboth b a, tallied_comm, hcount]

/-- A fact leaves the same events whether or not another one of the same instant came before it. -/
theorem note_snd_note (q : QueueRecord) (now : Duration) (a b : Fact) :
    ((q.note now a).1.note now b).2 = (q.note now b).2 := by
  rw [note_snd, note_snd, note_fst]
  cases q.rates with
  | none => rfl
  | some r => exact congrArg lateEvents (r.late_count a b now.counterMillis)

end QueueRecord

end WindowedStats
