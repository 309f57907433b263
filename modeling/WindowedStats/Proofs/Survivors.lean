import WindowedStats.Clock
import WindowedStats.Proofs.EvictionRuns
import WindowedStats.Proofs.WindowContents

/-!
# What survives an eviction

An eviction cuts off the stale values in front and stops at the first fresh one.  What stands behind
that one stays, whether it is fresh or not.  As long as values come in at ascending instants the cut
leaves no stale value, and on a clock that never goes back they do.

A clock may go back, though.  The account on this page makes no assumption on it: whatever the clock
shows, the values reported and those still held are the values added, cut in two (`splits_result`),
and so an eviction leaves a stale value exactly if one stood behind a fresh one
(`stale_survives_iff`).  `stale_survives_set_back` shows that this happens.
-/

namespace WindowedStats

namespace SlidingWindow

variable {α : Type}

/-! ## The values added are cut in two -/

/-- The value of an entry is the same while the window holds it and when it leaves. -/
def access : EvictingQueue.Access α (Timed α) := ⟨Timed.value, Timed.value⟩

namespace Watched

/-- The values added are those reported, and then those that the window still holds. -/
def Splits (w : Watched α) (added : List (Timed α)) : Prop :=
  ∃ gone, added = gone ++ w.window.entries ∧ w.reported = gone.map Timed.value

variable {w : Watched α} {added : List (Timed α)}

/-- The queue of a window with the values that were reported. -/
def queue (w : Watched α) : EvictingQueue.Watched α (Timed α) := ⟨w.window.queue, w.reported⟩

theorem Splits.perform (h : w.Splits added) (now : Duration) (op : Op α) :
    (w.perform now op).Splits (Run.note added now op) := by
  -- What is true of every evicting queue is true of the one that makes up the window.
  have hqueue : w.queue.Splits access added := h
  have hstep : ∀ (op : EvictingQueue.Op α (Timed α)) (mayGo : Timed α → Bool),
      op.rule? = some mayGo → (w.queue.perform access op).Splits access
        (added ++ op.arrival?.toList) := fun op mayGo hop => hqueue.perform hop
  cases op with
  | add v => exact hstep (.push (⟨·, now⟩) (isStale w.window.length now) v) _ rfl
  | evict =>
      have hevict := hstep (.evict (isStale w.window.length now)) _ rfl
      rwa [EvictingQueue.Op.arrival?, Option.toList_none, List.append_nil] at hevict
  | clear => exact ⟨[], rfl, rfl⟩

end Watched

theorem Run.splits_result (length : Duration) (run : Run α) :
    (result length run).Splits run.added := by
  induction run using List.reverseRecOn with
  | nil => exact ⟨[], rfl, rfl⟩
  | append_singleton run e ih =>
      rw [result_append, added_append]
      exact ih.perform e.1 e.2

/-! ## What the cut leaves -/

/-- The cut leaves an element that may go exactly if one stands behind an element that may not. -/
theorem exists_mem_dropWhile_iff {p : α → Bool} {l : List α} :
    (∃ b ∈ l.dropWhile p, p b = true) ↔ ∃ a b, [a, b].Sublist l ∧ p a = false ∧ p b = true := by
  constructor
  · rintro ⟨b, hb, hpb⟩
    -- The first element that is left may not go, so `b` is another one, further behind.
    cases hcut : l.dropWhile p with
    | nil => exact absurd (hcut ▸ hb) List.not_mem_nil
    | cons a rest =>
        have ha : p a = false := by
          have hne : l.dropWhile p ≠ [] := hcut ▸ List.cons_ne_nil a rest
          have hhead := List.head_dropWhile_not p hne
          simpa only [hcut, List.head_cons] using hhead
        rw [hcut] at hb
        have hrest : b ∈ rest := by
          rcases List.mem_cons.mp hb with rfl | hrest
          · exact absurd hpb (by simp [ha])
          · exact hrest
        refine ⟨a, b, ?_, ha, hpb⟩
        have hpair : [a, b].Sublist (l.dropWhile p) :=
          hcut ▸ (List.singleton_sublist.mpr hrest).cons_cons a
        exact hpair.trans (List.dropWhile_sublist p)
  · rintro ⟨a, b, hsub, ha, hb⟩
    by_contra hnone
    have hpairs : l.Pairwise fun a b => p b = true → p a = true := by
      rw [← List.takeWhile_append_dropWhile (p := p) (l := l), List.pairwise_append]
      have hfront : ∀ c ∈ l.takeWhile p, p c = true := List.all_eq_true.mp List.all_takeWhile
      refine ⟨List.pairwise_of_forall_mem_list fun c hc _ _ _ => hfront c hc, ?_,
        fun c hc _ _ _ => hfront c hc⟩
      exact List.pairwise_of_forall_mem_list fun _ _ d hd hpd => absurd ⟨d, hd, hpd⟩ hnone
    have hpa := List.pairwise_iff_forall_sublist.mp hpairs hsub hb
    exact absurd hpa (by simp [ha])

theorem isStale_eq_false_iff {length now : Duration} {t : Timed α} :
    isStale length now t = false ↔ now - t.addedAt ≤ length := by
  rw [← not_isStale_iff, Bool.not_eq_true']

open Run in
/-- A forced eviction leaves a stale value exactly if before it one was held behind a fresh value,
which was then added at a later instant: the clock has gone back between the two.  So no stale value
is left if those added since the last clear came in at ascending instants, whatever else the clock
has shown. -/
theorem stale_survives_iff (length : Duration) (run : Run α) (now : Duration) :
    ((∃ t ∈ (result length (run ++ [(now, .evict)])).window.entries, length < now - t.addedAt) ↔
      ∃ s t, [s, t].Sublist (result length run).window.entries ∧
        now - s.addedAt ≤ length ∧ length < now - t.addedAt ∧ t.addedAt < s.addedAt) ∧
    (run.added.Pairwise (fun s t => s.addedAt ≤ t.addedAt) →
      ∀ t ∈ (result length (run ++ [(now, .evict)])).window.entries,
        now - t.addedAt ≤ length) := by
  have hcut : (result length (run ++ [(now, .evict)])).window.entries =
      (result length run).window.entries.dropWhile (isStale length now) := by
    rw [result_append]
    show (result length run).window.entries.dropWhile
      (isStale (result length run).window.length now) = _
    rw [length_result]
  have hiff := exists_mem_dropWhile_iff (p := isStale length now)
    (l := (result length run).window.entries)
  simp only [isStale_iff, isStale_eq_false_iff] at hiff
  constructor
  · rw [hcut, hiff]
    constructor
    · rintro ⟨s, t, hsub, hs, ht⟩
      refine ⟨s, t, hsub, hs, ht, ?_⟩
      rw [Duration.le_def, Duration.nanos_sub] at hs
      rw [Duration.lt_def, Duration.nanos_sub] at ht
      rw [Duration.lt_def]
      omega
    · rintro ⟨s, t, hsub, hs, ht, -⟩
      exact ⟨s, t, hsub, hs, ht⟩
  · intro hadded t ht
    obtain ⟨gone, hsplit, -⟩ := splits_result length run
    have hheld : (result length run).window.entries.Pairwise fun s t => s.addedAt ≤ t.addedAt := by
      rw [hsplit] at hadded
      exact (List.pairwise_append.mp hadded).2.1
    rw [hcut, (cut_stale hheld length now).2] at ht
    exact not_isStale_iff.mp (List.mem_filter.mp ht).2

/-- The clock goes back between an eviction and the next addition, but not between additions. -/
def Run.wavering : Run Nat :=
  [(.ofSeconds 3, .add 1), (.ofSeconds 20, .evict), (.ofSeconds 4, .add 2),
    (.ofSeconds 1, .evict)]

theorem stale_survives_iff_wavering :
    Run.wavering.added.Pairwise (fun s t => s.addedAt ≤ t.addedAt) ∧
      (Run.result (.ofSeconds 5) (Run.wavering ++ [(.ofSeconds 9, .evict)])).window.entries =
        [⟨2, .ofSeconds 4⟩] ∧
      ∀ t ∈ (Run.result (.ofSeconds 5) (Run.wavering ++ [(.ofSeconds 9, .evict)])).window.entries,
        Duration.ofSeconds 9 - t.addedAt ≤ .ofSeconds 5 := by
  have hadded : Run.wavering.added.Pairwise fun s t => s.addedAt ≤ t.addedAt := by
    show List.Pairwise (fun s t : Timed Nat => s.addedAt ≤ t.addedAt)
      [⟨1, .ofSeconds 3⟩, ⟨2, .ofSeconds 4⟩]
    rw [List.pairwise_pair]
    decide
  exact ⟨hadded, rfl,
    (stale_survives_iff (.ofSeconds 5) Run.wavering (.ofSeconds 9)).2 hadded⟩

/-- A clock that is set back by a hundred seconds between two additions. -/
def Run.setBack : Run Nat :=
  [((Clock.startingAt (.ofSeconds 100)).now, .add 1),
    (((Clock.startingAt (.ofSeconds 100)).setTime .zero).now, .add 2)]

/-- A value survives a forced eviction at ten times the greatest age. -/
theorem stale_survives_set_back :
    ¬ ∀ (length : Duration) (run : Run Nat) (now : Duration),
        ∀ t ∈ (Run.result length (run ++ [(now, .evict)])).window.entries,
          now - t.addedAt ≤ length := by
  intro hnone
  have hheld : (Run.result (.ofSeconds 5)
      (Run.setBack ++ [(.ofSeconds 50, .evict)])).window.entries =
        [⟨1, .ofSeconds 100⟩, ⟨2, .zero⟩] := rfl
  have hage := hnone (.ofSeconds 5) Run.setBack (.ofSeconds 50) ⟨2, .zero⟩ (by simp [hheld])
  exact absurd hage (by decide)

end SlidingWindow

end WindowedStats
