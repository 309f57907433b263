import WindowedStats.Proofs.MonitorRuns
import WindowedStats.Proofs.SizeHistograms

/-!
# What a record shows of its facts

Apart from the rates, a record is a tally of the facts that it has taken note of: it counts the
additions and the drops, and its histograms hold the sizes and the waiting times of the removals
(`QueueRecord.Tallies`).  One more fact preserves this, and so does a reading of the figures.

Therefore a record that tallies all facts of a family of records shows the figures of that family
together (`Tallies.aggregates`).  The counters and the sums add up, and the extremes are those of
the family.  The counts of buckets add up where the buckets are the same: always for waiting times,
whose thresholds are in the settings, and for sizes if the capacities are the same
(`Tallies.sizeBuckets_aggregate`).  For the other figures of sizes the thresholds do not matter,
since a size is never discarded: whatever the capacity, the marks begin at zero and end at the
highest edge.
-/

namespace WindowedStats

/-! ## Summaries of parts and of the whole -/

/-- The figures of a summary, buckets apart, are those of some parts together. -/
structure Summary.Aggregates (whole : Summary) (parts : List Summary) : Prop where
  sum : whole.sum = (parts.map (·.sum)).sum
  accepted : whole.accepted = (parts.map (·.accepted)).sum
  discarded : whole.discarded = (parts.map (·.discarded)).sum
  least : whole.least = (parts.filterMap (·.least)).min?
  greatest : whole.greatest = (parts.filterMap (·.greatest)).max?

namespace Distribution

/-- The intervals of the buckets. -/
def edges (d : Distribution) : List (Int × Int) := d.buckets.map fun b => (b.low, b.high)

/-- The count of the bucket at a place. -/
def countAt (d : Distribution) (i : Nat) : Nat := d.buckets[i]?.elim 0 (·.count)

/-- The intervals are those of each part, and the counts of each interval add up. -/
structure Aggregates (whole : Distribution) (parts : List Distribution) : Prop where
  edges : ∀ part ∈ parts, part.edges = whole.edges
  countAt : ∀ i, whole.countAt i = (parts.map (·.countAt i)).sum

end Distribution

/-- An extreme of several lists is the extreme of their extremes. -/
theorem extreme_flatMap {β : Type} {r : Int → Int → Prop} (htrans : ∀ a b c, r a b → r b c → r a c)
    {f : List Int → Option Int} (hnone : ∀ l, f l = none ↔ l = [])
    (hsome : ∀ l a, f l = some a ↔ a ∈ l ∧ ∀ b ∈ l, r a b) (parts : List β) (g : β → List Int) :
    f (parts.flatMap g) = f (parts.filterMap fun p => f (g p)) := by
  cases hall : f (parts.filterMap fun p => f (g p)) with
  | none =>
      rw [hnone] at hall ⊢
      refine List.flatMap_eq_nil_iff.mpr ?_
      intro p hp
      exact (hnone _).mp (List.filterMap_eq_nil_iff.mp hall p hp)
  | some a =>
      obtain ⟨hmem, hextreme⟩ := (hsome _ _).mp hall
      obtain ⟨p, hp, ha⟩ := List.mem_filterMap.mp hmem
      refine (hsome _ _).mpr ⟨List.mem_flatMap.mpr ⟨p, hp, ((hsome _ _).mp ha).1⟩, ?_⟩
      intro b hb
      obtain ⟨p', hp', hbp⟩ := List.mem_flatMap.mp hb
      obtain ⟨b', hb'⟩ : ∃ b', f (g p') = some b' := by
        refine Option.ne_none_iff_exists'.mp ?_
        intro hempty
        rw [(hnone _).mp hempty] at hbp
        cases hbp
      have hbetter := hextreme b' (List.mem_filterMap.mpr ⟨p', hp', hb'⟩)
      exact htrans _ _ _ hbetter (((hsome _ _).mp hb').2 b hbp)

theorem min?_flatMap {β : Type} (parts : List β) (g : β → List Int) :
    (parts.flatMap g).min? = (parts.filterMap fun p => (g p).min?).min? :=
  extreme_flatMap (r := (· ≤ ·)) (fun _ _ _ => Int.le_trans) (fun _ => List.min?_eq_none_iff)
    (fun _ _ => List.min?_eq_some_iff) parts g

theorem max?_flatMap {β : Type} (parts : List β) (g : β → List Int) :
    (parts.flatMap g).max? = (parts.filterMap fun p => (g p).max?).max? :=
  extreme_flatMap (r := (· ≥ ·)) (fun _ _ _ hab hbc => Int.le_trans hbc hab)
    (fun _ => List.max?_eq_none_iff) (fun _ _ => List.max?_eq_some_iff) parts g

theorem sum_flatMap {β : Type} (parts : List β) (g : β → List Int) :
    (parts.flatMap g).sum = (parts.map fun p => (g p).sum).sum := by
  rw [List.flatMap, List.sum_flatten, List.map_map]
  rfl

section OfValues

variable {β : Type} {marks : List Int} {marksOf valuesOf : β → List Int} {parts : List β}

/-- The figures of all values together are those of the parts, if the marks of each part cover the
same of its values. -/
theorem Summary.aggregates_ofValues
    (h : ∀ p ∈ parts, ∀ v ∈ valuesOf p, covers (marksOf p) v = covers marks v) :
    (ofValues marks (parts.flatMap valuesOf)).Aggregates
      (parts.map fun p => ofValues (marksOf p) (valuesOf p)) := by
  have hkept : ∀ p ∈ parts,
      (valuesOf p).filter (covers (marksOf p)) = (valuesOf p).filter (covers marks) :=
    fun p hp => List.filter_congr (h p hp)
  have hdiscarded : ∀ p ∈ parts, (valuesOf p).countP (!covers (marksOf p) ·) =
      (valuesOf p).countP (!covers marks ·) := by
    intro p hp
    refine List.countP_congr ?_
    intro v hv
    rw [h p hp v hv]
  simp only [ofValues]
  constructor
  · rw [List.filter_flatMap, sum_flatMap, List.map_map]
    refine congrArg List.sum (List.map_congr_left ?_)
    intro p hp
    exact congrArg List.sum (hkept p hp).symm
  · rw [List.filter_flatMap, List.length_flatMap, List.map_map]
    refine congrArg List.sum (List.map_congr_left ?_)
    intro p hp
    exact congrArg List.length (hkept p hp).symm
  · rw [List.countP_flatMap, List.map_map]
    refine congrArg List.sum (List.map_congr_left ?_)
    intro p hp
    exact (hdiscarded p hp).symm
  · rw [List.filter_flatMap, min?_flatMap, List.filterMap_map]
    refine congrArg List.min? (List.filterMap_congr ?_)
    intro p hp
    exact congrArg List.min? (hkept p hp).symm
  · rw [List.filter_flatMap, max?_flatMap, List.filterMap_map]
    refine congrArg List.max? (List.filterMap_congr ?_)
    intro p hp
    exact congrArg List.max? (hkept p hp).symm

theorem edges_bucketsOf (marks vs : List Int) :
    (⟨bucketsOf marks vs⟩ : Distribution).edges = marks.zip marks.tail := by
  rw [Distribution.edges, bucketsOf, List.map_map]
  exact List.map_id'' (fun _ => rfl) _

theorem countAt_bucketsOf (marks vs : List Int) (i : Nat) :
    (⟨bucketsOf marks vs⟩ : Distribution).countAt i =
      (marks.zip marks.tail)[i]?.elim 0 fun e => vs.countP (inInterval marks e.1 e.2) := by
  rw [Distribution.countAt, bucketsOf, List.getElem?_map]
  cases (marks.zip marks.tail)[i]? <;> rfl

/-- Where the marks are the same, the buckets add up too. -/
theorem Distribution.aggregates_ofValues (marks : List Int) (parts : List β)
    (valuesOf : β → List Int) :
    (Summary.ofValues marks (parts.flatMap valuesOf)).distribution.Aggregates
      (parts.map fun p => (Summary.ofValues marks (valuesOf p)).distribution) := by
  simp only [Summary.ofValues]
  constructor
  · intro part hpart
    obtain ⟨p, -, rfl⟩ := List.mem_map.mp hpart
    rw [edges_bucketsOf, edges_bucketsOf]
  · intro i
    rw [countAt_bucketsOf, List.map_map, List.filter_flatMap]
    simp only [Function.comp_def, countAt_bucketsOf]
    cases (marks.zip marks.tail)[i]? with
    | none => simp
    | some e => exact List.countP_flatMap

end OfValues

/-! ## Tallies of facts -/

namespace QueueRecord

/-- The sizes that some facts bring, as values of a histogram. -/
def sizesOf (facts : List Fact) : List Int :=
  facts.filterMap fun
    | .removal size _ => some (sizeMark size)
    | _ => none

/-- The waiting times that some facts bring, as values of a histogram. -/
def waitsOf (facts : List Fact) : List Int :=
  facts.filterMap fun
    | .removal _ wait => wait.map waitMark
    | _ => none

theorem sizesOf_append (facts more : List Fact) :
    sizesOf (facts ++ more) = sizesOf facts ++ sizesOf more := List.filterMap_append

theorem waitsOf_append (facts more : List Fact) :
    waitsOf (facts ++ more) = waitsOf facts ++ waitsOf more := List.filterMap_append

theorem sizesOf_flatMap {β : Type} (parts : List β) (g : β → List Fact) :
    sizesOf (parts.flatMap g) = parts.flatMap fun p => sizesOf (g p) := List.filterMap_flatMap

theorem waitsOf_flatMap {β : Type} (parts : List β) (g : β → List Fact) :
    waitsOf (parts.flatMap g) = parts.flatMap fun p => waitsOf (g p) := List.filterMap_flatMap

section Tallied

variable (q : QueueRecord) (now : Duration) (fact : Fact)

theorem tallied_added : (q.tallied now fact).added = q.added + [fact].count .addition := by
  cases fact <;> rfl

theorem tallied_removed : (q.tallied now fact).removed = q.removed + (sizesOf [fact]).length := by
  cases fact <;> rfl

theorem tallied_dropped : (q.tallied now fact).dropped = q.dropped + [fact].count .drop := by
  cases fact <;> rfl

theorem tallied_sizeAtRemove :
    (q.tallied now fact).sizeAtRemove = (sizesOf [fact]).foldl .push q.sizeAtRemove := by
  cases fact <;> rfl

theorem tallied_waitTime :
    (q.tallied now fact).waitTime = q.waitTime.map fun h => (waitsOf [fact]).foldl .push h := by
  cases fact with
  | addition => exact Option.map_id'.symm
  | removal size wait =>
      cases wait with
      | none => exact Option.map_id'.symm
      | some w => rfl
  | drop => exact Option.map_id'.symm

end Tallied

/-- Rates apart, the record of a queue with a capacity is what the settings and some facts make of
it. -/
structure Tallies (q : QueueRecord) (s : Settings) (capacity : UInt64) (facts : List Fact) :
    Prop where
  added : q.added = facts.count .addition
  removed : q.removed = (sizesOf facts).length
  dropped : q.dropped = facts.count .drop
  sizes : ∃ t, t.marks = queueSizeThresholds capacity s.capacityCap ∧
    q.sizeAtRemove.Holds t (sizesOf facts)
  tracks : q.tracksWaitTimes = s.trackWaitTimes
  waits : ∀ h, q.waitTime = some h → ∃ t, t.marks = s.waitMarks ∧ h.Holds t (waitsOf facts)

variable {q : QueueRecord} {s : Settings} {capacity : UInt64} {facts : List Fact}

theorem tallies_newRecord (h : s.newRecord capacity = .ok q) : q.Tallies s capacity [] := by
  have htracks := Settings.tracksWaitTimes_newRecord h
  obtain ⟨rates, -, h⟩ := SetupError.bind_eq_ok_iff.mp h
  obtain ⟨waitTime, hwait, h⟩ := SetupError.bind_eq_ok_iff.mp h
  obtain ⟨sizes, hsizes, h⟩ := SetupError.bind_eq_ok_iff.mp h
  cases h
  refine ⟨rfl, rfl, rfl, Histogram.holds_ofMarks hsizes, htracks, ?_⟩
  rintro w rfl
  rw [Settings.newWaitTime] at hwait
  split at hwait
  · obtain ⟨w', hw', heq⟩ := SetupError.bind_eq_ok_iff.mp hwait
    cases heq
    exact Histogram.holds_ofMarks hw'
  · cases hwait

/-- The rates do not count. -/
theorem Tallies.withRates (h : q.Tallies s capacity facts) (rates : Option QueueRates) :
    Tallies { q with rates := rates } s capacity facts :=
  ⟨h.added, h.removed, h.dropped, h.sizes, h.tracks, h.waits⟩

theorem Tallies.tallied (h : q.Tallies s capacity facts) (now : Duration) (fact : Fact) :
    (q.tallied now fact).Tallies s capacity (facts ++ [fact]) := by
  refine ⟨?_, ?_, ?_, ?_, ?_, ?_⟩
  · rw [tallied_added, List.count_append, h.added]
  · rw [tallied_removed, sizesOf_append, List.length_append, h.removed]
  · rw [tallied_dropped, List.count_append, h.dropped]
  · obtain ⟨t, ht, hholds⟩ := h.sizes
    rw [tallied_sizeAtRemove, sizesOf_append]
    exact ⟨t, ht, hholds.pushes _⟩
  · rw [tracksWaitTimes, tallied_waitTime, Option.isSome_map]
    exact h.tracks
  · intro w hw
    rw [tallied_waitTime] at hw
    obtain ⟨old, hold, rfl⟩ := Option.map_eq_some_iff.mp hw
    obtain ⟨t, ht, hholds⟩ := h.waits old hold
    rw [waitsOf_append]
    exact ⟨t, ht, hholds.pushes _⟩

theorem Tallies.note (h : q.Tallies s capacity facts) (now : Duration) (fact : Fact) :
    (q.note now fact).1.Tallies s capacity (facts ++ [fact]) := by
  rw [note_fst]
  exact (h.tallied now fact).withRates _

theorem Tallies.report (h : q.Tallies s capacity facts) (now : Duration) :
    (q.report now).1.Tallies s capacity facts := h.withRates _

theorem Tallies.sizes_eq (h : q.Tallies s capacity facts) :
    q.sizeAtRemove.summary =
      .ofValues (queueSizeThresholds capacity s.capacityCap) (sizesOf facts) := by
  obtain ⟨t, ht, hholds⟩ := h.sizes
  rw [hholds.summary_eq, ht]

theorem Tallies.waits_eq (h : q.Tallies s capacity facts) :
    q.waitTime.map Histogram.summary =
      if s.trackWaitTimes then some (.ofValues s.waitMarks (waitsOf facts)) else none := by
  rw [← h.tracks, tracksWaitTimes]
  cases hwait : q.waitTime with
  | none => rfl
  | some w =>
      obtain ⟨t, ht, hholds⟩ := h.waits w hwait
      rw [Option.map_some, hholds.summary_eq, ht]
      rfl

end QueueRecord

/-! ## Sizes are never discarded -/

theorem QueueRecord.covers_of_mem_sizesOf {capacity cap : UInt64} {facts : List Fact} {v : Int}
    (hv : v ∈ sizesOf facts) : covers (queueSizeThresholds capacity cap) v = true := by
  obtain ⟨fact, -, hfact⟩ := List.mem_filterMap.mp hv
  cases fact with
  | addition => cases hfact
  | removal size wait =>
      cases hfact
      exact covers_sizeThresholds capacity cap size
  | drop => cases hfact

/-! ## Reports of parts and of the whole -/

/-- The figures of a report, rates and the buckets of sizes apart, are those of some parts
together. -/
structure QueueReport.Aggregates (whole : QueueReport) (parts : List QueueReport) : Prop where
  added : whole.added = (parts.map (·.added)).sum
  removed : whole.removed = (parts.map (·.removed)).sum
  dropped : whole.dropped = (parts.map (·.dropped)).sum
  sizeAtRemove : whole.sizeAtRemove.Aggregates (parts.map (·.sizeAtRemove))
  waitTime : (whole.waitTime = none ∧ ∀ part ∈ parts, part.waitTime = none) ∨
    ∃ w ws, whole.waitTime = some w ∧ parts.map (·.waitTime) = ws.map some ∧ w.Aggregates ws ∧
      w.distribution.Aggregates (ws.map (·.distribution))

namespace QueueRecord

/-- A record with the capacity and the facts that it tallies. -/
structure Part where
  record : QueueRecord
  capacity : UInt64
  facts : List Fact

variable {q : QueueRecord} {s : Settings} {capacity : UInt64} {facts : List Fact}
  {parts : List Part}

/-- The parts tally all facts of the whole between them. -/
structure Divide (s : Settings) (facts : List Fact) (parts : List Part) : Prop where
  tallies : ∀ p ∈ parts, p.record.Tallies s p.capacity p.facts
  facts : facts.Perm (parts.flatMap (·.facts))

theorem Divide.sizes (h : Divide s facts parts) :
    (sizesOf facts).Perm (parts.flatMap fun p => sizesOf p.facts) := by
  rw [← sizesOf_flatMap]
  exact h.facts.filterMap _

theorem Divide.waits (h : Divide s facts parts) :
    (waitsOf facts).Perm (parts.flatMap fun p => waitsOf p.facts) := by
  rw [← waitsOf_flatMap]
  exact h.facts.filterMap _

theorem Tallies.sizes_aggregate (hq : q.Tallies s capacity facts) (h : Divide s facts parts) :
    q.sizeAtRemove.summary.Aggregates (parts.map (·.record.sizeAtRemove.summary)) := by
  have hparts : parts.map (·.record.sizeAtRemove.summary) = parts.map fun p =>
      .ofValues (queueSizeThresholds p.capacity s.capacityCap) (sizesOf p.facts) :=
    List.map_congr_left fun p hp => (h.tallies p hp).sizes_eq
  rw [hq.sizes_eq, Summary.ofValues_perm _ h.sizes, hparts]
  refine Summary.aggregates_ofValues ?_
  intro p _ v hv
  rw [covers_of_mem_sizesOf hv, covers_of_mem_sizesOf hv]

theorem Tallies.sizeBuckets_aggregate (hq : q.Tallies s capacity facts) (h : Divide s facts parts)
    (hcapacity : ∀ p ∈ parts, p.capacity = capacity) :
    q.sizeAtRemove.summary.distribution.Aggregates
      (parts.map (·.record.sizeAtRemove.summary.distribution)) := by
  have hparts : parts.map (·.record.sizeAtRemove.summary.distribution) = parts.map fun p =>
      (Summary.ofValues (queueSizeThresholds capacity s.capacityCap)
        (sizesOf p.facts)).distribution := by
    refine List.map_congr_left ?_
    intro p hp
    rw [(h.tallies p hp).sizes_eq, hcapacity p hp]
  rw [hq.sizes_eq, Summary.ofValues_perm _ h.sizes, hparts]
  exact Distribution.aggregates_ofValues _ parts _

theorem Tallies.waits_aggregate (hq : q.Tallies s capacity facts) (h : Divide s facts parts)
    (now : Duration) :
    ((q.report now).2.waitTime = none ∧ ∀ p ∈ parts, (p.record.report now).2.waitTime = none) ∨
      ∃ w ws, (q.report now).2.waitTime = some w ∧
        parts.map (fun p => (p.record.report now).2.waitTime) = ws.map some ∧ w.Aggregates ws ∧
        w.distribution.Aggregates (ws.map (·.distribution)) := by
  cases htrack : s.trackWaitTimes with
  | false =>
      refine .inl ⟨?_, ?_⟩
      · exact hq.waits_eq.trans (by rw [htrack]; rfl)
      · intro p hp
        exact (h.tallies p hp).waits_eq.trans (by rw [htrack]; rfl)
  | true =>
      refine .inr ⟨.ofValues s.waitMarks (waitsOf facts),
        parts.map fun p => .ofValues s.waitMarks (waitsOf p.facts), ?_, ?_, ?_, ?_⟩
      · exact hq.waits_eq.trans (by rw [htrack]; rfl)
      · rw [List.map_map]
        refine List.map_congr_left ?_
        intro p hp
        exact (h.tallies p hp).waits_eq.trans (by rw [htrack]; rfl)
      · rw [Summary.ofValues_perm _ h.waits]
        exact Summary.aggregates_ofValues fun _ _ _ _ => rfl
      · rw [Summary.ofValues_perm _ h.waits, List.map_map]
        exact Distribution.aggregates_ofValues _ parts _

/-- A record that tallies the facts of some others shows the figures of the others together. -/
theorem Tallies.aggregates (hq : q.Tallies s capacity facts) (h : Divide s facts parts)
    (now : Duration) :
    (q.report now).2.Aggregates (parts.map fun p => (p.record.report now).2) := by
  constructor
  · rw [List.map_map]
    show q.added = _
    rw [hq.added, h.facts.count_eq, List.count_flatMap]
    exact congrArg List.sum (List.map_congr_left fun p hp => (h.tallies p hp).added.symm)
  · rw [List.map_map]
    show q.removed = _
    rw [hq.removed, h.sizes.length_eq, List.length_flatMap]
    exact congrArg List.sum (List.map_congr_left fun p hp => (h.tallies p hp).removed.symm)
  · rw [List.map_map]
    show q.dropped = _
    rw [hq.dropped, h.facts.count_eq, List.count_flatMap]
    exact congrArg List.sum (List.map_congr_left fun p hp => (h.tallies p hp).dropped.symm)
  · rw [List.map_map]
    exact hq.sizes_aggregate h
  · rcases hq.waits_aggregate h now with ⟨hnone, hall⟩ | ⟨w, ws, hw, hws, hfigures, hbuckets⟩
    · refine .inl ⟨hnone, ?_⟩
      intro part hpart
      obtain ⟨p, hp, rfl⟩ := List.mem_map.mp hpart
      exact hall p hp
    · refine .inr ⟨w, ws, hw, ?_, hfigures, hbuckets⟩
      rw [List.map_map]
      exact hws

end QueueRecord

end WindowedStats
