import WindowedStats.Proofs.FactTallies

/-!
# No fact is lost

A record takes note of facts in any order and at any instants, also at instants that its rates have
left behind, and its figures are read and logged in between.  None of this makes it forget: the
counters are the numbers of facts of each kind, every removal brings exactly one size, and a removal
of an item that is known to have waited brings exactly one waiting time.

A run of operations preserves `QueueRecord.Tallies` with the facts noted so far
(`Tallies.after`), since reading does not change what is tallied and a rate that refuses a late
update is not asked.  From there `accounts_for_every_fact` is a matter of counting: a size is never
discarded, because the marks cover all sizes, and a waiting time is tallied or discarded, but not
lost.
-/

namespace WindowedStats

/-! ## Values tallied and discarded -/

namespace Summary

theorem accepted_add_discarded (marks vs : List Int) :
    (ofValues marks vs).accepted + (ofValues marks vs).discarded = vs.length := by
  show (vs.filter (covers marks)).length + vs.countP (!covers marks ·) = vs.length
  rw [← List.countP_eq_length_filter, List.length_eq_countP_add_countP (covers marks)]
  simp only [Bool.not_eq_true, Bool.decide_eq_false]

theorem discarded_eq_zero {marks vs : List Int} (h : ∀ v ∈ vs, covers marks v = true) :
    (ofValues marks vs).discarded = 0 := by
  refine List.countP_eq_zero.mpr ?_
  intro v hv
  rw [h v hv]
  exact Bool.false_ne_true

end Summary

/-! ## Facts that bring a value -/

namespace QueueRecord

/-- Whether a fact is a removal. -/
def Fact.isRemoval : Fact → Bool
  | .removal _ _ => true
  | _ => false

/-- Whether a fact is a removal of an item that is known to have waited. -/
def Fact.hasWait (fact : Fact) : Bool := fact.wait?.isSome

theorem length_sizesOf (facts : List Fact) : (sizesOf facts).length = facts.countP Fact.isRemoval := by
  rw [sizesOf, List.length_filterMap_eq_countP]
  refine List.countP_congr ?_
  intro fact _
  cases fact <;> simp [Fact.isRemoval]

theorem length_waitsOf (facts : List Fact) : (waitsOf facts).length = facts.countP Fact.hasWait := by
  rw [waitsOf, List.length_filterMap_eq_countP]
  refine List.countP_congr ?_
  intro fact _
  cases fact <;> simp [Fact.hasWait, Fact.wait?]

/-! ## Runs of a record -/

/-- The record after some operations. -/
def after (q : QueueRecord) (ops : List Op) : QueueRecord :=
  ops.foldl (fun q op => (q.perform op).1) q

/-- The facts among some operations, in order. -/
def noted (ops : List Op) : List Fact :=
  ops.filterMap fun
    | .note _ fact => some fact
    | _ => none

variable {q : QueueRecord} {s : Settings} {capacity : UInt64} {facts : List Fact}

theorem Tallies.perform (h : q.Tallies s capacity facts) (op : Op) :
    (q.perform op).1.Tallies s capacity (facts ++ noted [op]) := by
  cases op with
  | note now fact => exact h.note now fact
  | report now =>
      show (q.report now).1.Tallies s capacity (facts ++ [])
      rw [List.append_nil]
      exact h.report now
  | log queueId now =>
      show (q.report now).1.Tallies s capacity (facts ++ [])
      rw [List.append_nil]
      exact h.report now

theorem Tallies.after (h : q.Tallies s capacity facts) (ops : List Op) :
    (q.after ops).Tallies s capacity (facts ++ noted ops) := by
  induction ops generalizing q facts with
  | nil => exact (List.append_nil facts).symm ▸ h
  | cons op rest ih =>
      have hsplit : noted (op :: rest) = noted [op] ++ noted rest :=
        List.filterMap_append (l := [op])
      rw [hsplit, ← List.append_assoc]
      exact ih (h.perform op)

end QueueRecord

/-! ## Reports that account for facts -/

open QueueRecord (Fact sizesOf waitsOf)

/-- The report of a queue with a capacity accounts for some facts: it counts each of them, and
tallies one size for every removal and one waiting time for every removal that has one.  Sizes and
waiting times beyond the highest edge count as that edge. -/
structure QueueReport.AccountsFor (r : QueueReport) (s : Settings) (capacity : UInt64)
    (facts : List Fact) : Prop where
  added : r.added = facts.count .addition
  removed : r.removed = facts.countP Fact.isRemoval
  dropped : r.dropped = facts.count .drop
  sizeAtRemove : r.sizeAtRemove =
    .ofValues (queueSizeThresholds capacity s.capacityCap) (sizesOf facts)
  sizes_accepted : r.sizeAtRemove.accepted = r.removed
  sizes_discarded : r.sizeAtRemove.discarded = 0
  waitTime : r.waitTime =
    if s.trackWaitTimes then some (.ofValues s.waitMarks (waitsOf facts)) else none
  waits : ∀ w, r.waitTime = some w → w.accepted + w.discarded = facts.countP Fact.hasWait

namespace QueueRecord

variable {q : QueueRecord} {s : Settings} {capacity : UInt64} {facts : List Fact}

theorem Tallies.removed_eq (h : q.Tallies s capacity facts) :
    q.removed = facts.countP Fact.isRemoval := by
  rw [h.removed, length_sizesOf]

theorem Tallies.sizes_discarded (h : q.Tallies s capacity facts) :
    q.sizeAtRemove.summary.discarded = 0 := by
  rw [h.sizes_eq]
  exact Summary.discarded_eq_zero fun _ hv => covers_of_mem_sizesOf hv

theorem Tallies.sizes_accepted (h : q.Tallies s capacity facts) :
    q.sizeAtRemove.summary.accepted = q.removed := by
  have hall := Summary.accepted_add_discarded
    (queueSizeThresholds capacity s.capacityCap) (sizesOf facts)
  rw [← h.sizes_eq, h.sizes_discarded, ← h.removed] at hall
  exact hall

theorem Tallies.waits_accounted (h : q.Tallies s capacity facts) {w : Summary}
    (hw : q.waitTime.map Histogram.summary = some w) :
    w.accepted + w.discarded = facts.countP Fact.hasWait := by
  rw [h.waits_eq] at hw
  obtain ⟨-, hw⟩ := Option.ite_none_right_eq_some.mp hw
  rw [← Option.some.inj hw, Summary.accepted_add_discarded, length_waitsOf]

theorem Tallies.accountsFor (h : q.Tallies s capacity facts) (now : Duration) :
    (q.report now).2.AccountsFor s capacity facts where
  added := h.added
  removed := h.removed_eq
  dropped := h.dropped
  sizeAtRemove := h.sizes_eq
  sizes_accepted := h.sizes_accepted
  sizes_discarded := h.sizes_discarded
  waitTime := h.waits_eq
  waits _ hw := h.waits_accounted hw

/-- Whatever is done to a new record, at whatever instants, its report at any time accounts for
every fact that it was told. -/
theorem accounts_for_every_fact (h : s.newRecord capacity = .ok q) (ops : List Op)
    (now : Duration) :
    ((q.after ops).report now).2.AccountsFor s capacity (noted ops) :=
  ((tallies_newRecord h).after ops).accountsFor now

/-- Two removals and a drop that come too late for the rates, the one removal of an item that has
waited and from a queue larger than any mark. -/
def lateRun : List Op :=
  [.note (.ofSeconds 10) .addition, .report (.ofSeconds 20),
    .note (.ofSeconds 1) (.removal 18446744073709551615 (some (.ofSeconds 3))),
    .note .zero .drop, .log "work" (.ofSeconds 2), .note (.ofSeconds 2) (.removal 0 none)]

theorem accounts_for_every_fact_late :
    ∃ q, ({ Settings.standard with trackWaitTimes := true } : Settings).newRecord 8 = .ok q ∧
      ((q.after lateRun).report .zero).2.added = 1 ∧
      ((q.after lateRun).report .zero).2.removed = 2 ∧
      ((q.after lateRun).report .zero).2.dropped = 1 ∧
      ((q.after lateRun).report .zero).2.sizeAtRemove.accepted = 2 ∧
      ((q.after lateRun).report .zero).2.sizeAtRemove.discarded = 0 ∧
      ∃ w, ((q.after lateRun).report .zero).2.waitTime = some w ∧ w.accepted + w.discarded = 1 := by
  obtain ⟨q, hq⟩ := (Settings.exists_newRecord_iff_usable
    (s := { Settings.standard with trackWaitTimes := true }) rfl 8).mpr (by decide)
  have haccounts := accounts_for_every_fact hq lateRun .zero
  exact ⟨q, hq, haccounts.added, haccounts.removed, haccounts.dropped,
    haccounts.sizes_accepted.trans haccounts.removed, haccounts.sizes_discarded,
    _, haccounts.waitTime, haccounts.waits _ haccounts.waitTime⟩

end QueueRecord

end WindowedStats
