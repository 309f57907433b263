import WindowedStats.Proofs.WordRings

/-!
# The order of the updates in one window

A tracker that is given the same updates in another order ends in another state.  The first update
moves the window of an empty ring, where a sweep stops at once and leaves the index of the oldest
tick behind, and later ones move it on with counts in it; so the ring is turned by an amount that
depends on the order.

Nothing tells the two trackers apart, as long as the ticks of the updates lie within one window and
no total overflows.  The log of the updates shows why.  No update in the list is too late, whichever
came before it, so the log accepts all of them and its horizon is the one that the latest of them
asks for (`after_updateAll`).  The two logs then differ only in the order of what they have
accepted, and a log only ever adds up what it has accepted (`SameUpdates`, preserved by every call).

A tracker in words is described by its log for as long as what the log adds up is a word.  All
updates of a window are live at once, so whether their sum is a word is not a matter of their order:
a program that stops at an overflow stops with both orders or with none
(`SameUpdates.answers_stops_eq`).  A program that goes on can be told apart, since a total that has
gone around to zero stops a sweep in one order and not in the other
(`order_shows_after_overflow`).
-/

namespace WindowedStats

/-- The calls for some updates, each with its count and its time. -/
def RateTracker.updateAll (updates : List (Nat × Nat)) : List RateTracker.Call :=
  updates.map fun u => .update u.1 u.2

namespace UpdateLog

open RateTracker (Call Answer updateAll)

/-! ## Logs that differ in the order of their updates -/

/-- The logs have the same window, and have accepted the same updates in some order. -/
structure SameUpdates (l l' : UpdateLog) : Prop where
  span_eq : l.span = l'.span
  tickMillis_eq : l.tickMillis = l'.tickMillis
  windowMillis_eq : l.windowMillis = l'.windowMillis
  horizon_eq : l.horizon = l'.horizon
  accepted_perm : l.accepted.Perm l'.accepted

namespace SameUpdates

variable {l l' : UpdateLog}

theorem live_eq (h : l.SameUpdates l') : l.live = l'.live := by
  rw [live, live, h.horizon_eq]
  exact ((h.accepted_perm.filter _).map _).sum_eq

theorem meanRate_eq (h : l.SameUpdates l') : l.meanRate = l'.meanRate := by
  rw [meanRate, meanRate, h.live_eq, h.windowMillis_eq]

theorem advance (h : l.SameUpdates l') (tick : Nat) :
    (l.advance tick).SameUpdates (l'.advance tick) := by
  refine ⟨h.span_eq, h.tickMillis_eq, h.windowMillis_eq, ?_, h.accepted_perm⟩
  show max l.horizon (tick - l.span) = max l'.horizon (tick - l'.span)
  rw [h.horizon_eq, h.span_eq]

theorem accept (h : l.SameUpdates l') (count tick : Nat) :
    (l.accept count tick).SameUpdates (l'.accept count tick) := by
  have hmoved := h.advance tick
  exact ⟨hmoved.span_eq, hmoved.tickMillis_eq, hmoved.windowMillis_eq, hmoved.horizon_eq,
    h.accepted_perm.cons (tick, count)⟩

/-- One call: the same answer, and the logs still have the same updates. -/
theorem perform (h : l.SameUpdates l') (call : Call) :
    (l.perform call).2 = (l'.perform call).2 ∧
      (l.perform call).1.SameUpdates (l'.perform call).1 := by
  cases call with
  | update count millis =>
      simp only [UpdateLog.perform, h.tickMillis_eq, h.horizon_eq]
      split
      · exact ⟨rfl, h⟩
      · exact ⟨rfl, h.accept count _⟩
  | countAt millis =>
      simp only [UpdateLog.perform, h.tickMillis_eq]
      exact ⟨congrArg Answer.count (h.advance _).live_eq, h.advance _⟩
  | rateAt millis =>
      simp only [UpdateLog.perform, h.tickMillis_eq]
      exact ⟨congrArg Answer.rate (h.advance _).meanRate_eq, h.advance _⟩

theorem answers_eq (h : l.SameUpdates l') (calls : List Call) :
    l.answers calls = l'.answers calls := by
  induction calls generalizing l l' with
  | nil => rfl
  | cons call rest ih =>
      obtain ⟨hanswer, hnext⟩ := h.perform call
      rw [UpdateLog.answers, UpdateLog.answers, hanswer, ih hnext]

end SameUpdates

/-! ## Updates whose ticks lie within one window -/

/-- The log with all of some updates accepted, one after the other. -/
def acceptAll (l : UpdateLog) (updates : List (Nat × Nat)) : UpdateLog :=
  { l with
    horizon := updates.foldl (fun horizon u => max horizon (u.2 / l.tickMillis - l.span)) l.horizon
    accepted := (updates.map fun u => (u.2 / l.tickMillis, u.1)).reverse ++ l.accepted }

theorem acceptAll_cons (l : UpdateLog) (u : Nat × Nat) (rest : List (Nat × Nat)) :
    l.acceptAll (u :: rest) = (l.accept u.1 (u.2 / l.tickMillis)).acceptAll rest := by
  simp only [acceptAll, accept, advance, List.foldl_cons, List.map_cons, List.reverse_cons,
    List.append_assoc, List.singleton_append]

theorem sameUpdates_acceptAll (l : UpdateLog) {us vs : List (Nat × Nat)} (h : us.Perm vs) :
    (l.acceptAll us).SameUpdates (l.acceptAll vs) := by
  refine ⟨rfl, rfl, rfl, ?_, ?_⟩
  · exact h.foldl_eq' (fun _ _ _ _ _ => Nat.max_right_comm _ _ _) l.horizon
  · refine List.Perm.append_right l.accepted ?_
    exact (List.reverse_perm _).trans ((h.map _).trans (List.reverse_perm _).symm)

/-- None of the updates is too late for a log whose horizon is before all of them, if none of them
is ahead of another one by more than the window. -/
theorem after_updateAll {l : UpdateLog} {us : List (Nat × Nat)}
    (hhorizon : ∀ u ∈ us, l.horizon ≤ u.2 / l.tickMillis)
    (hspan : ∀ u ∈ us, ∀ v ∈ us, u.2 / l.tickMillis ≤ v.2 / l.tickMillis + l.span) :
    l.after (updateAll us) = l.acceptAll us ∧
      l.answers (updateAll us) = us.map fun _ => .updated [] := by
  induction us generalizing l with
  | nil => exact ⟨rfl, rfl⟩
  | cons u rest ih =>
      have hperform : l.perform (.update u.1 u.2) =
          (l.accept u.1 (u.2 / l.tickMillis), .updated []) :=
        if_neg (Nat.not_lt.mpr (hhorizon u List.mem_cons_self))
      have hnext : ∀ v ∈ rest,
          (l.accept u.1 (u.2 / l.tickMillis)).horizon ≤ v.2 / l.tickMillis := by
        intro v hv
        have hmem := List.mem_cons_of_mem u hv
        exact Nat.max_le.mpr ⟨hhorizon v hmem,
          Nat.sub_le_iff_le_add.mpr (hspan u List.mem_cons_self v hmem)⟩
      obtain ⟨hafter, hanswers⟩ := ih hnext fun v hv w hw =>
        hspan v (List.mem_cons_of_mem u hv) w (List.mem_cons_of_mem u hw)
      constructor
      · show (l.perform (.update u.1 u.2)).1.after (updateAll rest) = _
        rw [hperform, hafter, acceptAll_cons]
      · show (l.perform (.update u.1 u.2)).2 :: (l.perform (.update u.1 u.2)).1.answers
          (updateAll rest) = _
        rw [hperform, hanswers, List.map_cons]

/-- The updates of one window are all live at once. -/
theorem live_acceptAll (span tickMillis windowMillis : Nat) {us : List (Nat × Nat)}
    (hspan : ∀ u ∈ us, ∀ v ∈ us, u.2 / tickMillis ≤ v.2 / tickMillis + span) :
    ((empty span tickMillis windowMillis).acceptAll us).live = (us.map (·.1)).sum := by
  have hhorizon : ∀ v ∈ us,
      ((empty span tickMillis windowMillis).acceptAll us).horizon ≤ v.2 / tickMillis := by
    intro v hv
    refine List.foldlRecOn (motive := (· ≤ v.2 / tickMillis)) us _ (Nat.zero_le _) ?_
    intro horizon hle u hu
    exact Nat.max_le.mpr ⟨hle, Nat.sub_le_iff_le_add.mpr (hspan u hu v hv)⟩
  have haccepted : ((empty span tickMillis windowMillis).acceptAll us).accepted =
      (us.map fun u => (u.2 / tickMillis, u.1)).reverse := List.append_nil _
  have hall : ∀ a ∈ (us.map fun u => (u.2 / tickMillis, u.1)).reverse,
      decide (((empty span tickMillis windowMillis).acceptAll us).horizon ≤ a.1) = true := by
    intro a ha
    obtain ⟨v, hv, rfl⟩ := List.mem_map.mp (List.mem_reverse.mp ha)
    exact decide_eq_true (hhorizon v hv)
  rw [live, countFrom, haccepted, List.filter_eq_self.mpr hall, List.map_reverse, List.sum_reverse,
    List.map_map]
  rfl

/-- The log never adds up to more on the way than with all updates of one window. -/
theorem live_before_updateAll_le (span tickMillis windowMillis : Nat) {us : List (Nat × Nat)}
    (hspan : ∀ u ∈ us, ∀ v ∈ us, u.2 / tickMillis ≤ v.2 / tickMillis + span)
    {before : List Call} (hbefore : before <+: updateAll us) :
    ((empty span tickMillis windowMillis).after before).live ≤
      ((empty span tickMillis windowMillis).acceptAll us).live := by
  have htake : before = updateAll (us.take before.length) := by
    rw [updateAll, List.map_take]
    exact List.prefix_iff_eq_take.mp hbefore
  have hfirst : ∀ u ∈ us.take before.length, ∀ v ∈ us.take before.length,
      u.2 / tickMillis ≤ v.2 / tickMillis + span := fun u hu v hv =>
    hspan u (List.mem_of_mem_take hu) v (List.mem_of_mem_take hv)
  rw [htake, (after_updateAll (fun _ _ => Nat.zero_le _) hfirst).1, live_acceptAll _ _ _ hfirst,
    live_acceptAll _ _ _ hspan]
  exact ((List.take_sublist _ us).map _).sum_le_sum (fun _ _ => Nat.zero_le _)

end UpdateLog

/-! ## Trackers in words -/

namespace WordTracker

open RateTracker (Call Answer)

/-- The tracker after a call, and what the call gives. -/
def step (o : Overflow) (t : RateTracker) : Call → Option (RateTracker × Answer)
  | .update count millis => do
    let (t, late) ← update o t count millis
    return (t, .updated (QueueRecord.lateEvents late))
  | .countAt millis => do
    let (t, n) ← countAt o t millis
    return (t, .count n)
  | .rateAt millis => do
    let (t, n) ← rateAt o perSecond t millis
    return (t, .rate n)

variable {o : Overflow} {t : RateTracker} {f : Nat → Nat} {count millis : Nat}

theorem ring_update (t : RateTracker) (count millis : Nat) :
    (t.update count millis).1.ring = (t.ring.add? count (millis / t.tickMillis)).getD t.ring := by
  rw [RateTracker.update]
  cases t.ring.add? count (millis / t.tickMillis) <;> rfl

theorem update_eq (h : t.ring.Holds f) (haddressed : 2 * t.ring.span ≤ maxWord)
    (hword : millis ≤ maxWord) (htotal : (t.update count millis).1.total ≤ maxWord) :
    update o t count millis = some (t.update count millis) := by
  have htick := Nat.le_trans (Nat.div_le_self millis t.tickMillis) hword
  rw [RateTracker.total, ring_update] at htotal
  rw [update, WordRing.add_eq h haddressed htick htotal, RateTracker.update]
  cases t.ring.add? count (millis / t.tickMillis) <;> rfl

theorem update_stops_eq_none (h : t.ring.Holds f) (haddressed : 2 * t.ring.span ≤ maxWord)
    (hword : millis ≤ maxWord) (htotal : t.total ≤ maxWord)
    (hover : maxWord < (t.update count millis).1.total) : update .stops t count millis = none := by
  have htick := Nat.le_trans (Nat.div_le_self millis t.tickMillis) hword
  rw [RateTracker.total, ring_update] at hover
  rw [update, WordRing.add_stops_eq_none h haddressed htick htotal hover]
  rfl

theorem advance_eq (h : t.ring.Holds f) (haddressed : 2 * t.ring.span ≤ maxWord)
    (hword : millis ≤ maxWord) : advance o t millis = some (t.advance millis) := by
  have htick := Nat.le_trans (Nat.div_le_self millis t.tickMillis) hword
  rw [advance, WordRing.advance_eq h (WordRing.size_le_maxWord haddressed) htick]
  rfl

end WordTracker

namespace UpdateLog

section Words

open RateTracker (Call Answer)
open WordTracker (step)

variable {o : Overflow} {l l' : UpdateLog} {t t' : RateTracker} {call : Call} {calls : List Call}

theorem span_perform (l : UpdateLog) (call : Call) : (l.perform call).1.span = l.span := by
  cases call with
  | update count millis =>
      simp only [perform]
      split <;> rfl
  | countAt millis => rfl
  | rateAt millis => rfl

/-- A call goes well as long as the log after it adds up to a word. -/
theorem Describes.step_eq (h : l.Describes t) (haddressed : 2 * l.span ≤ maxWord)
    (hword : call.millis ≤ maxWord) (hlive : (l.perform call).1.live ≤ maxWord) :
    step o t call = some ((t.perform call).1, (l.perform call).2) := by
  obtain ⟨hanswer, hnext⟩ := h.perform call
  rw [hnext.live_eq] at hlive
  rw [h.span_eq] at haddressed
  rw [hanswer]
  cases call with
  | update count millis =>
      have hupdated : WordTracker.update o t count millis = some (t.update count millis) :=
        WordTracker.update_eq h.holds haddressed hword hlive
      rw [step, hupdated]
      rfl
  | countAt millis =>
      have hmoved : WordTracker.advance o t millis = some (t.advance millis) :=
        WordTracker.advance_eq h.holds haddressed hword
      rw [step, WordTracker.countAt, hmoved]
      rfl
  | rateAt millis =>
      have hmoved : WordTracker.advance o t millis = some (t.advance millis) :=
        WordTracker.advance_eq h.holds haddressed hword
      rw [step, WordTracker.rateAt, hmoved]
      rfl

/-- A program that stops at an overflow does so at a call after which the log adds up to more. -/
theorem Describes.step_stops_eq_none (h : l.Describes t) (haddressed : 2 * l.span ≤ maxWord)
    (hword : call.millis ≤ maxWord) (hlive : l.live ≤ maxWord)
    (hover : maxWord < (l.perform call).1.live) : step .stops t call = none := by
  rw [(h.perform call).2.live_eq] at hover
  rw [h.live_eq] at hlive
  rw [h.span_eq] at haddressed
  have hmoved : ∀ millis, (t.advance millis).total ≤ maxWord := fun millis =>
    Nat.le_trans (t.ring.total_advance_le _) hlive
  cases call with
  | update count millis =>
      have hstopped : WordTracker.update .stops t count millis = none :=
        WordTracker.update_stops_eq_none h.holds haddressed hword hlive hover
      rw [step, hstopped]
      rfl
  | countAt millis => exact absurd (hmoved millis) (Nat.not_le.mpr hover)
  | rateAt millis => exact absurd (hmoved millis) (Nat.not_le.mpr hover)

/-- As long as the log adds up to a word, the answers are those of the log. -/
theorem Describes.answers_append_eq (h : l.Describes t) (haddressed : 2 * l.span ≤ maxWord)
    (hwords : ∀ call ∈ calls, call.millis ≤ maxWord)
    (hlive : ∀ before, before <+: calls → (l.after before).live ≤ maxWord) (later : List Call) :
    answersOf (step o) t (calls ++ later) =
      (answersOf (step o) (t.after calls) later).map (l.answers calls ++ ·) := by
  induction calls generalizing l t with
  | nil => exact Option.map_id'.symm
  | cons call rest ih =>
      have hfirst : (l.perform call).1.live ≤ maxWord :=
        hlive [call] (List.prefix_append [call] rest)
      have hword := hwords call List.mem_cons_self
      have hrest := ih (h.perform call).2 (by rwa [span_perform])
        (fun c hc => hwords c (List.mem_cons_of_mem call hc))
        (fun before hb => hlive (call :: before) (List.prefix_cons_inj call |>.mpr hb))
      rw [List.cons_append, answersOf_cons_of_some (h.step_eq haddressed hword hfirst), hrest,
        Option.map_map]
      rfl

/-- A program that stops at an overflow has stopped once the log adds up to more than a word. -/
theorem Describes.answers_append_stops_eq_none (h : l.Describes t)
    (haddressed : 2 * l.span ≤ maxWord) (hwords : ∀ call ∈ calls, call.millis ≤ maxWord)
    (hlive : l.live ≤ maxWord) (hover : maxWord < (l.after calls).live) (later : List Call) :
    answersOf (step .stops) t (calls ++ later) = none := by
  induction calls generalizing l t with
  | nil => exact absurd hlive (Nat.not_le.mpr hover)
  | cons call rest ih =>
      have hword := hwords call List.mem_cons_self
      rw [List.cons_append]
      rcases Nat.lt_or_ge maxWord (l.perform call).1.live with hfirst | hfirst
      · exact answersOf_cons_of_none (h.step_stops_eq_none haddressed hword hlive hfirst) _
      · have hrest := ih (h.perform call).2 (by rwa [span_perform])
          (fun c hc => hwords c (List.mem_cons_of_mem call hc)) hfirst hover
        rw [answersOf_cons_of_some (h.step_eq haddressed hword hfirst), hrest]
        rfl

/-- Without an overflow, it does not matter what would become of one. -/
theorem Describes.answers_of_stops (h : l.Describes t) (haddressed : 2 * l.span ≤ maxWord)
    (hwords : ∀ call ∈ calls, call.millis ≤ maxWord) (hlive : l.live ≤ maxWord)
    {given : List Answer} (hgiven : answersOf (step .stops) t calls = some given) :
    answersOf (step o) t calls = some given := by
  refine answersOf_of_some
    (fun t => ∃ l : UpdateLog, l.Describes t ∧ 2 * l.span ≤ maxWord ∧ l.live ≤ maxWord) ?_
    ⟨l, h, haddressed, hlive⟩ hgiven
  rintro t ⟨l, h, haddressed, hlive⟩ call hcall x hx
  have hword := hwords call hcall
  rcases Nat.lt_or_ge maxWord (l.perform call).1.live with hover | hle
  · rw [h.step_stops_eq_none haddressed hword hlive hover] at hx
    cases hx
  · rw [h.step_eq haddressed hword hle] at hx ⊢
    cases hx
    exact ⟨rfl, (l.perform call).1, (h.perform call).2, by rwa [span_perform], hle⟩

/-- A program that stops at an overflow answers with either tracker alike, and stops at the same
call. -/
theorem SameUpdates.answers_stops_eq (h : l.SameUpdates l') (hl : l.Describes t)
    (hl' : l'.Describes t') (haddressed : 2 * l.span ≤ maxWord)
    (hwords : ∀ call ∈ calls, call.millis ≤ maxWord) (hlive : l.live ≤ maxWord) :
    answersOf (step .stops) t calls = answersOf (step .stops) t' calls := by
  refine answersOf_eq (fun t t' => ∃ l l' : UpdateLog, l.SameUpdates l' ∧ l.Describes t ∧
    l'.Describes t' ∧ 2 * l.span ≤ maxWord ∧ l.live ≤ maxWord) ?_
    ⟨l, l', h, hl, hl', haddressed, hlive⟩
  rintro t t' ⟨l, l', h, hl, hl', haddressed, hlive⟩ call hcall
  obtain ⟨hanswer, hnext⟩ := h.perform call
  have hword := hwords call hcall
  have haddressed' : 2 * l'.span ≤ maxWord := h.span_eq ▸ haddressed
  have hlive' : l'.live ≤ maxWord := h.live_eq ▸ hlive
  rcases Nat.lt_or_ge maxWord (l.perform call).1.live with hover | hle
  · rw [hl.step_stops_eq_none haddressed hword hlive hover,
      hl'.step_stops_eq_none haddressed' hword hlive' (hnext.live_eq ▸ hover)]
    exact .none
  · rw [hl.step_eq haddressed hword hle, hl'.step_eq haddressed' hword (hnext.live_eq ▸ hle)]
    exact .some ⟨hanswer, _, _, hnext, (hl.perform call).2, (hl'.perform call).2,
      by rwa [span_perform], hle⟩

end Words

end UpdateLog

namespace RateTracker

section Fresh

variable {o : Overflow} {ticks : Nat} {tick : Duration} {t : RateTracker}
  {us vs : List (Nat × Nat)} {later : List Call}

/-- A new tracker takes in all updates of one window, if their sum is a word. -/
theorem answers_updateAll_eq (h : ofTicks ticks tick = .ok t) (haddressed : 2 * ticks ≤ maxWord)
    (hspan : ∀ u ∈ us, ∀ v ∈ us, u.2 / t.tickMillis ≤ v.2 / t.tickMillis + ticks)
    (hwords : ∀ call ∈ updateAll us, call.millis ≤ maxWord)
    (hlive : ((UpdateLog.empty ticks t.tickMillis t.windowMillis).acceptAll us).live ≤ maxWord) :
    answersOf (WordTracker.step o) t (updateAll us ++ later) =
      (answersOf (WordTracker.step o) (t.after (updateAll us)) later).map
        (us.map (fun _ => .updated []) ++ ·) := by
  have haccepted := UpdateLog.after_updateAll
    (l := UpdateLog.empty ticks t.tickMillis t.windowMillis) (fun _ _ => Nat.zero_le _) hspan
  rw [(UpdateLog.describes_empty h).answers_append_eq haddressed hwords ?_ later, haccepted.2]
  intro before hbefore
  exact Nat.le_trans (UpdateLog.live_before_updateAll_le _ _ _ hspan hbefore) hlive

/-- A program that stops at an overflow has stopped if the sum of the updates is no word. -/
theorem answers_updateAll_stops_eq_none (h : ofTicks ticks tick = .ok t)
    (haddressed : 2 * ticks ≤ maxWord)
    (hspan : ∀ u ∈ us, ∀ v ∈ us, u.2 / t.tickMillis ≤ v.2 / t.tickMillis + ticks)
    (hwords : ∀ call ∈ updateAll us, call.millis ≤ maxWord)
    (hover : maxWord < ((UpdateLog.empty ticks t.tickMillis t.windowMillis).acceptAll us).live) :
    answersOf (WordTracker.step .stops) t (updateAll us ++ later) = none := by
  have haccepted := UpdateLog.after_updateAll
    (l := UpdateLog.empty ticks t.tickMillis t.windowMillis) (fun _ _ => Nat.zero_le _) hspan
  rw [← haccepted.1] at hover
  exact (UpdateLog.describes_empty h).answers_append_stops_eq_none haddressed hwords
    (Nat.zero_le _) hover later

/-- A program that stops at an overflow answers alike with either order of the updates. -/
theorem answers_updateAll_perm (h : ofTicks ticks tick = .ok t) (haddressed : 2 * ticks ≤ maxWord)
    (hsame : us.Perm vs)
    (hspan : ∀ u ∈ us, ∀ v ∈ us, u.2 / t.tickMillis ≤ v.2 / t.tickMillis + ticks)
    (hus : ∀ call ∈ updateAll us, call.millis ≤ maxWord)
    (hlater : ∀ call ∈ later, call.millis ≤ maxWord) :
    answersOf (WordTracker.step .stops) t (updateAll us ++ later) =
      answersOf (WordTracker.step .stops) t (updateAll vs ++ later) := by
  let log := UpdateLog.empty ticks t.tickMillis t.windowMillis
  have hempty : log.Describes t := UpdateLog.describes_empty h
  have hlogs := UpdateLog.sameUpdates_acceptAll log hsame
  have hspan' : ∀ v ∈ vs, ∀ w ∈ vs, v.2 / t.tickMillis ≤ w.2 / t.tickMillis + ticks :=
    fun v hv w hw => hspan v (hsame.mem_iff.mpr hv) w (hsame.mem_iff.mpr hw)
  have hvs : ∀ call ∈ updateAll vs, call.millis ≤ maxWord :=
    fun call hcall => hus call ((hsame.map _).mem_iff.mpr hcall)
  rcases Nat.lt_or_ge maxWord (log.acceptAll us).live with hover | hlive
  · rw [answers_updateAll_stops_eq_none h haddressed hspan hus hover,
      answers_updateAll_stops_eq_none h haddressed hspan' hvs (hlogs.live_eq ▸ hover)]
  · have hdescribes : (log.acceptAll us).Describes (t.after (updateAll us)) := by
      rw [← (UpdateLog.after_updateAll (fun _ _ => Nat.zero_le _) hspan).1]
      exact hempty.after _
    have hdescribes' : (log.acceptAll vs).Describes (t.after (updateAll vs)) := by
      rw [← (UpdateLog.after_updateAll (fun _ _ => Nat.zero_le _) hspan').1]
      exact hempty.after _
    rw [answers_updateAll_eq h haddressed hspan hus hlive,
      answers_updateAll_eq h haddressed hspan' hvs (hlogs.live_eq ▸ hlive),
      hlogs.answers_stops_eq hdescribes hdescribes' haddressed hlater hlive, List.map_const',
      List.map_const', hsame.length_eq]

/-- A program that does not stop has taken in every update. -/
theorem prefix_of_answers_updateAll (h : ofTicks ticks tick = .ok t)
    (haddressed : 2 * ticks ≤ maxWord)
    (hspan : ∀ u ∈ us, ∀ v ∈ us, u.2 / t.tickMillis ≤ v.2 / t.tickMillis + ticks)
    (hus : ∀ call ∈ updateAll us, call.millis ≤ maxWord) {given : List Answer}
    (hgiven : answersOf (WordTracker.step .stops) t (updateAll us ++ later) = some given) :
    us.map (fun _ => .updated []) <+: given := by
  rcases Nat.lt_or_ge maxWord
    ((UpdateLog.empty ticks t.tickMillis t.windowMillis).acceptAll us).live with hover | hlive
  · rw [answers_updateAll_stops_eq_none h haddressed hspan hus hover] at hgiven
    cases hgiven
  · rw [answers_updateAll_eq h haddressed hspan hus hlive, Option.map_eq_some_iff] at hgiven
    obtain ⟨rest, -, rfl⟩ := hgiven
    exact List.prefix_append _ rest

end Fresh

end RateTracker

end WindowedStats
