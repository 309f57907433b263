import WindowedStats.Proofs.FloatQuotients
import WindowedStats.Proofs.LifetimeCounts

/-!
# Reading the figures twice

Reading the figures of a queue moves the windows of its rates forward.  A second reading at the same
instant finds them where they have to be (`TickRing.advance_advance`), so it changes nothing and
gives the very same figures (`QueueRecord.report_report`).

To compare them is another matter.  Figures are equal if all of them are, and among them are means.
The mean of no values is not a number, which does not equal itself; every other mean does, since it
is a quotient of two whole numbers (`Binary64.isNaN_quotient`).  So the figures of a histogram equal
themselves from the first value on that it accepts, and those of a queue as soon as all of its
histograms have accepted a value (`readings_equal_iff`).
-/

namespace WindowedStats

/-! ## Windows that have moved forward -/

theorem TickRing.advance_advance (r : TickRing) (now : Nat) :
    (r.advance now).advance now = r.advance now := by
  refine if_pos ?_
  rw [span_advance, oldestTick_advance]
  exact Nat.le_max_right _ _

namespace QueueRecord

theorem readRates_readRates (millis : Nat) (r : QueueRates) :
    readRates millis (readRates millis r).1 = readRates millis r := by
  simp only [readRates, ScaledRate.rateAt, RateTracker.advance, TickRing.advance_advance]

/-- A second reading at the same instant changes nothing and gives the same figures. -/
theorem report_report (q : QueueRecord) (now : Duration) :
    (q.report now).1.report now = q.report now := by
  have hread : ((q.rates.map (readRates now.counterMillis)).map (·.1)).map
      (readRates now.counterMillis) = q.rates.map (readRates now.counterMillis) := by
    rw [Option.map_map, Option.map_map]
    congr 1
    exact funext (readRates_readRates now.counterMillis)
  simp only [report, hread]

end QueueRecord

/-! ## Figures that equal themselves -/

theorem Summary.beq_self (s : Summary) : (s == s) = (s.average == s.average) := by
  show instBEqSummary.beq s s = _
  rw [instBEqSummary.beq.eq_def]
  simp only [beq_self_eq_true, Bool.and_true]

theorem QueueReport.beq_self (r : QueueReport) :
    (r == r) = (r.sizeAtRemove == r.sizeAtRemove && r.waitTime == r.waitTime) := by
  show instBEqQueueReport.beq r r = _
  rw [instBEqQueueReport.beq.eq_def]
  simp only [beq_self_eq_true, Bool.true_and]

theorem QueueReport.beq_self_iff (r : QueueReport) :
    (r == r) = true ↔ (r.sizeAtRemove == r.sizeAtRemove) = true ∧
      ∀ w, r.waitTime = some w → (w == w) = true := by
  rw [beq_self, Bool.and_eq_true]
  refine and_congr_right fun _ => ?_
  cases r.waitTime with
  | none => exact iff_of_true rfl fun _ hw => nomatch hw
  | some w =>
      constructor
      · intro h w' hw
        cases hw
        exact h
      · exact fun h => h w rfl

namespace Histogram

theorem isNaN_average_of_accepted {h : Histogram} (hpos : 0 < h.accepted)
    (hword : h.accepted < wordCount) : h.average.isNaN = false := by
  rw [average, if_pos hpos]
  exact Binary64.isNaN_quotient h.sum hpos hword

theorem summary_beq_self_iff {h : Histogram} (hword : h.accepted < wordCount) :
    (h.summary == h.summary) = true ↔ 0 < h.accepted := by
  rw [Summary.beq_self, Binary64.beq_self, Bool.not_eq_true']
  show h.average.isNaN = false ↔ 0 < h.accepted
  constructor
  · intro hnumber
    by_contra hnone
    rw [average, if_neg hnone] at hnumber
    exact absurd hnumber (by decide)
  · exact fun hpos => isNaN_average_of_accepted hpos hword

theorem accepted_pos_iff {marks : List Int} {figureLabel bucketLabel : String} {h : Histogram}
    (hh : ofMarks marks figureLabel bucketLabel = .ok h) (vs : List Int) :
    0 < (vs.foldl push h).accepted ↔ ∃ v ∈ vs, covers marks v = true := by
  obtain ⟨t, rfl, hempty⟩ := holds_ofMarks hh
  rw [(hempty.pushes vs).accepted_eq, List.length_pos_iff_exists_mem, funext (covers_marks t)]
  simp only [List.nil_append, List.mem_filter]

end Histogram

namespace QueueRecord

variable {s : Settings} {capacity : UInt64} {q : QueueRecord} {facts : List Fact}

/-- Only removals bring waiting times. -/
theorem countP_hasWait_le (facts : List Fact) :
    facts.countP Fact.hasWait ≤ facts.countP Fact.isRemoval := by
  refine List.countP_mono_left ?_
  intro fact _ hwait
  cases fact with
  | removal size wait => rfl
  | addition => cases hwait
  | drop => cases hwait

theorem Tallies.report_beq_iff (h : q.Tallies s capacity facts) (now : Duration)
    (hword : q.removed < wordCount) :
    ((q.report now).2 == (q.report now).2) = true ↔
      0 < q.removed ∧ ∀ w, (q.report now).2.waitTime = some w → 0 < w.accepted := by
  rw [QueueReport.beq_self_iff]
  refine and_congr ?_ (forall_congr' fun w => imp_congr_right fun hw => ?_)
  · have haccepted : q.sizeAtRemove.accepted = q.removed := h.sizes_accepted
    rw [← haccepted] at hword ⊢
    exact Histogram.summary_beq_self_iff hword
  · have hcount : w.accepted ≤ q.removed := by
      have hall := h.waits_accounted hw
      have hle := countP_hasWait_le facts
      rw [← h.removed_eq] at hle
      omega
    obtain ⟨waits, -, rfl⟩ := Option.map_eq_some_iff.mp hw
    exact Histogram.summary_beq_self_iff (Nat.lt_of_le_of_lt hcount hword)

/-- As long as no count exceeds a word, the figures of a histogram equal themselves exactly if one
of its values lies between its marks.  A second reading of the figures of a queue at the same
instant changes nothing and gives the same figures, and these equal the first ones exactly if an
item was removed and, where waiting times are tracked, one was accepted. -/
theorem readings_equal_iff :
    (∀ {marks : List Int} {figureLabel bucketLabel : String} {h : Histogram},
      Histogram.ofMarks marks figureLabel bucketLabel = .ok h → ∀ vs : List Int,
        let figures := (vs.foldl Histogram.push h).summary
        figures.accepted < wordCount →
          ((figures == figures) = true ↔ ∃ v ∈ vs, covers marks v = true)) ∧
    ∀ {s : Settings} {capacity : UInt64} {q : QueueRecord}, s.newRecord capacity = .ok q →
      ∀ (ops : List Op) (now : Duration),
        let first := (q.after ops).report now
        let second := first.1.report now
        second.1 = first.1 ∧ second.2 = first.2 ∧
          (first.2.removed < wordCount → ((first.2 == second.2) = true ↔
            0 < first.2.removed ∧ ∀ w, first.2.waitTime = some w → 0 < w.accepted)) := by
  constructor
  · intro marks figureLabel bucketLabel h hh vs figures hword
    exact (Histogram.summary_beq_self_iff hword).trans (Histogram.accepted_pos_iff hh vs)
  · intro s capacity q hq ops now first second
    have hsame : second = first := report_report (q.after ops) now
    refine ⟨congrArg Prod.fst hsame, congrArg Prod.snd hsame, ?_⟩
    rw [hsame]
    exact ((tallies_newRecord hq).after ops).report_beq_iff now

/-- One item is removed that has waited, and one that was never added. -/
def removals : List Op :=
  [.note (.ofSeconds 1) .addition, .note (.ofSeconds 3) (.removal 0 (some (.ofSeconds 2))),
    .note (.ofSeconds 4) (.removal 0 none)]

theorem readings_equal_iff_removals :
    (∃ h, Histogram.ofMarks [0, 10] "" "" = .ok h ∧
      (([3, 20].foldl Histogram.push h).summary == ([3, 20].foldl Histogram.push h).summary) =
        true) ∧
    ∃ q, ({ Settings.standard with trackWaitTimes := true } : Settings).newRecord 8 = .ok q ∧
      let first := (q.after removals).report (.ofSeconds 5)
      let second := first.1.report (.ofSeconds 5)
      first.2.removed = 2 ∧ second.1 = first.1 ∧ (first.2 == second.2) = true := by
  obtain ⟨hfigures, hreports⟩ := readings_equal_iff
  constructor
  · obtain ⟨h, hh⟩ : ∃ h, Histogram.ofMarks [0, 10] "" "" = .ok h := ⟨_, rfl⟩
    have haccepted : ([3, 20].foldl Histogram.push h).summary.accepted < wordCount := by
      cases hh
      decide
    exact ⟨h, hh, (hfigures hh [3, 20] haccepted).mpr ⟨3, by decide, by decide⟩⟩
  · obtain ⟨q, hq⟩ := (Settings.exists_newRecord_iff_usable
      (s := { Settings.standard with trackWaitTimes := true }) rfl 8).mpr (by decide)
    have haccounts := ((tallies_newRecord hq).after removals).accountsFor (.ofSeconds 5)
    obtain ⟨hstate, -, hequal⟩ := hreports hq removals (.ofSeconds 5)
    have hremoved : ((q.after removals).report (.ofSeconds 5)).2.removed = 2 := haccounts.removed
    refine ⟨q, hq, hremoved, hstate, (hequal (by rw [hremoved]; decide)).mpr ?_⟩
    refine ⟨by rw [hremoved]; decide, ?_⟩
    intro w hw
    obtain rfl := Option.some.inj (hw.symm.trans haccounts.waitTime)
    decide

/-- The figures of a histogram without values do not equal themselves, and so the two readings of a
new record do not equal each other. -/
theorem first_readings_differ :
    (∃ h, Histogram.ofMarks [0, 10] "" "" = .ok h ∧ (h.summary == h.summary) = false) ∧
    ∃ q, Settings.standard.newRecord 8 = .ok q ∧
      ((q.report .zero).2 == ((q.report .zero).1.report .zero).2) = false := by
  refine ⟨⟨_, rfl, by decide⟩, ?_⟩
  obtain ⟨q, hq⟩ := (Settings.exists_newRecord_iff_usable (s := Settings.standard) rfl 8).mpr
    (by decide)
  have hnew := tallies_newRecord hq
  have hnone : q.removed = 0 := hnew.removed
  have hiff := hnew.report_beq_iff .zero (by rw [hnone]; decide)
  refine ⟨q, hq, ?_⟩
  rw [report_report, Bool.eq_false_iff]
  exact fun hequal => absurd (hiff.mp hequal).1 (by rw [hnone]; decide)

end QueueRecord

end WindowedStats
