import WindowedStats.Proofs.QueueLogs

/-!
# The shared record shows what the observers show together

With local statistics every observer keeps a record of its own beside the shared one of its queue.
Whatever an observer is told, both take note of the same fact.  So as long as only observers write
to the records of a queue, the shared record shows what the records of the observers show together.

The proof keeps a log of the facts of the queue.  The shared record tallies the whole log, and the
observers account for it (`Monitor.Shares`).  Every operation preserves this (`Shares.perform`): a
change appends one entry to the log, a new observer finds none with its number, and a new shared
record finds no entry at all, since an observer makes sure of the shared record first.  At the end
the observers divide the log among them, and `QueueRecord.Tallies.aggregates` applies.
-/

namespace WindowedStats

open QueueRecord (Fact)

namespace Monitor

/-! ## Runs in which only observers write -/

/-- The operation makes the shared record of a queue or an observer of it, with a capacity. -/
def Op.Makes (queueId : String) (capacity : UInt64) (m : Monitor) (op : Op) : Prop :=
  op = .lookUp queueId capacity ∧ .recordCreated queueId capacity ∈ (m.perform op).2 ∨
    op = .observe queueId capacity ∧ ∃ i, (m.observe queueId capacity).2.2 = .ok i

/-- During a run a record of a queue is made with a capacity. -/
def Makes (queueId : String) (capacity : UInt64) : Monitor → List Op → Prop
  | _, [] => False
  | m, op :: rest => op.Makes queueId capacity m ∨ Makes queueId capacity (m.perform op).1 rest

/-- The capacities are given in the run. -/
theorem mem_of_makes {queueId : String} {capacity : UInt64} {m : Monitor} {ops : List Op}
    (h : Makes queueId capacity m ops) :
    .lookUp queueId capacity ∈ ops ∨ .observe queueId capacity ∈ ops := by
  induction ops generalizing m with
  | nil => exact h.elim
  | cons op rest ih =>
      rcases h with (⟨rfl, -⟩ | ⟨rfl, -⟩) | hrest
      · exact .inl List.mem_cons_self
      · exact .inr List.mem_cons_self
      · exact (ih hrest).imp (List.mem_cons_of_mem op) (List.mem_cons_of_mem op)

/-- The operation lets a record of a queue, the shared one or that of an observer, take note of
something that no observer was told. -/
def Op.Bypasses (queueId : String) (m : Monitor) : Op → Prop
  | .onShared i (.note _ _) => m.registry.names[i]? = some queueId
  | .onOwn i (.note _ _) => ∃ o, m.observers[i]? = some o ∧ o.queueId = queueId
  | _ => False

/-- During a run only the observers of a queue write to its records. -/
def ObservedOnly (queueId : String) : Monitor → List Op → Prop
  | _, [] => True
  | m, op :: rest => ¬ op.Bypasses queueId m ∧ ObservedOnly queueId (m.perform op).1 rest

/-- The shared record of a queue tallies a log of facts, and the observers of the queue account for
that log.  Each observer finds the shared record of its queue. -/
structure Shares (s : Settings) (queueId : String) (given : UInt64 → Prop) (m : Monitor)
    (log : List (Nat × Fact)) : Prop where
  registry : m.registry.Keeps s queueId fun q =>
    ∃ capacity, given capacity ∧ q.Tallies s capacity (log.map (·.2))
  accounts : Accounts s queueId given m.observers log
  shared : ∀ (i : Nat) o, m.observers[i]? = some o → m.registry.names[o.shared]? = some o.queueId

variable {s : Settings} {queueId : String} {given : UInt64 → Prop} {m : Monitor}
  {log : List (Nat × Fact)}

/-- An observer that makes the shared record gets a record of its own. -/
theorem exists_observe_of_created {id : String} {capacity : UInt64}
    (h : .recordCreated id capacity ∈ (m.registry.recordFor id capacity).2.1) :
    ∃ i, (m.observe id capacity).2.2 = .ok i := by
  have hrecord : ∃ q, m.registry.settings.newRecord capacity = .ok q := by
    simp only [Registry.recordFor] at h
    cases hq : m.registry.settings.newRecord capacity with
    | ok q => exact ⟨q, rfl⟩
    | error e =>
        cases hfind : m.registry.find? id with
        | some i => simp [hfind] at h
        | none => simp [hfind, hq] at h
  exact (m.exists_observe_iff id capacity).mpr
    ⟨(m.registry.exists_recordFor_iff id capacity).mpr (.inr hrecord), fun _ => hrecord⟩

/-- Whether or not an observer is made, the shared record has been asked for. -/
theorem observe_fst (m : Monitor) (id : String) (capacity : UInt64) :
    (m.observe id capacity).1 = { m with registry := (m.registry.recordFor id capacity).1 } ∨
      ∃ i shared own, (m.observe id capacity).2.2 = .ok i ∧
        (m.registry.recordFor id capacity).2.2 = .ok shared ∧
        newOwn (m.registry.recordFor id capacity).1.settings capacity = .ok own ∧
        (m.observe id capacity).1 =
          ⟨(m.registry.recordFor id capacity).1, m.observers ++
            [.fresh (m.registry.recordFor id capacity).1.settings id shared own]⟩ := by
  simp only [observe]
  split
  · next heq =>
    rw [heq]
    exact .inl rfl
  · next shared heq =>
    rw [heq]
    split
    · exact .inl rfl
    · next own hown => exact .inr ⟨_, shared, own, rfl, rfl, hown, rfl⟩

theorem Shares.tell (h : m.Shares s queueId given log) (facts : List Fact) {i : Nat}
    {o : Observer} (o' : Observer) (ho : m.observers[i]? = some o) (hqueue : o'.queueId = o.queueId)
    (hshared : o'.shared = o.shared) (hfacts : facts ≠ [] → o.queueId = queueId)
    (hown : o.queueId = queueId → ∀ q capacity, o.own = some q →
      q.Tallies s capacity (factsOf i log) →
        ∃ q', o'.own = some q' ∧ q'.Tallies s capacity (factsOf i log ++ facts))
    {r : Registry} (hlater : Registry.Later s m.registry r)
    (hr : r.Keeps s queueId fun q =>
      ∃ capacity, given capacity ∧ q.Tallies s capacity (log.map (·.2) ++ facts)) :
    Shares s queueId given ⟨r, m.observers.set i o'⟩ (log ++ facts.map (i, ·)) := by
  refine ⟨?_, h.accounts.tell facts o' ho hqueue hfacts hown, ?_⟩
  · have hmap : (facts.map (i, ·)).map (·.2) = facts := by
      rw [List.map_map]
      exact List.map_id facts
    rw [List.map_append, hmap]
    exact hr
  · intro k p hk
    by_cases hki : i = k
    · subst hki
      obtain ⟨hlt, -⟩ := List.getElem?_eq_some_iff.mp ho
      obtain rfl : o' = p := Option.some.inj ((List.getElem?_set_self hlt).symm.trans hk)
      rw [hqueue, hshared]
      exact hlater.getElem?_names (h.shared i o ho)
    · exact hlater.getElem?_names (h.shared k p ((List.getElem?_set_ne hki).symm.trans hk))

/-- An operation on the registry alone. -/
theorem Shares.withRegistry (h : m.Shares s queueId given log) {r : Registry}
    (hlater : Registry.Later s m.registry r)
    (hr : r.Keeps s queueId fun q =>
      ∃ capacity, given capacity ∧ q.Tallies s capacity (log.map (·.2))) :
    Shares s queueId given { m with registry := r } log :=
  ⟨hr, h.accounts, fun i o ho => hlater.getElem?_names (h.shared i o ho)⟩

/-- While the queue has no shared record, nothing has been told about it. -/
theorem Shares.log_eq_nil (h : m.Shares s queueId given log) (hnone : queueId ∉ m.registry.names) :
    log = [] := by
  refine List.eq_nil_iff_forall_not_mem.mpr ?_
  intro e he
  obtain ⟨o, ho, hid⟩ := h.accounts.told e he
  have hname := h.shared e.1 o ho
  rw [hid] at hname
  exact hnone (List.mem_of_getElem? hname)

/-- Asking for a shared record tells nobody anything. -/
theorem Shares.recordFor (h : m.Shares s queueId given log) (id : String) {capacity : UInt64}
    (hgiven : id = queueId → .recordCreated id capacity ∈ (m.registry.recordFor id capacity).2.1 →
      given capacity) :
    Shares s queueId given { m with registry := (m.registry.recordFor id capacity).1 } log := by
  refine h.withRegistry (Registry.later_recordFor id capacity) ?_
  refine h.registry.recordFor id capacity ?_
  intro hid hcreated hnone q hq
  rw [h.log_eq_nil hnone]
  exact ⟨capacity, hgiven hid hcreated, QueueRecord.tallies_newRecord hq⟩

theorem Shares.concat (h : m.Shares s queueId given log) {o : Observer}
    (hshared : m.registry.names[o.shared]? = some o.queueId)
    (hown : o.queueId = queueId →
      ∃ q capacity, o.own = some q ∧ given capacity ∧ q.Tallies s capacity []) :
    Shares s queueId given { m with observers := m.observers ++ [o] } log := by
  refine ⟨h.registry, h.accounts.concat hown, ?_⟩
  intro i p hi
  rcases getElem?_concat_eq_some hi with hold | ⟨-, rfl⟩
  · exact h.shared i p hold
  · exact hshared

theorem Shares.observe (h : m.Shares s queueId given log) (hlocal : s.localStats = true)
    (id : String) {capacity : UInt64}
    (hgiven : id = queueId → ∀ i, (m.observe id capacity).2.2 = .ok i → given capacity) :
    (m.observe id capacity).1.Shares s queueId given log := by
  have hasked := h.recordFor id fun hid hcreated =>
    (exists_observe_of_created hcreated).elim (hgiven hid)
  rcases m.observe_fst id capacity with hsame | ⟨i, shared, own, hi, hshared, hown, hmade⟩
  · rw [hsame]
    exact hasked
  · rw [hmade]
    refine hasked.concat (Registry.getElem?_names_recordFor hshared) ?_
    intro hid
    rw [hasked.registry.settings_eq, newOwn, hlocal, if_pos rfl] at hown
    obtain ⟨q, hq, hown⟩ := SetupError.bind_eq_ok_iff.mp hown
    cases hown
    exact ⟨q, capacity, rfl, hgiven hid i hi, QueueRecord.tallies_newRecord hq⟩

theorem Shares.change (h : m.Shares s queueId given log) (i : Nat) (now : Duration)
    (c : ItemChange) (key : Nat) :
    ∃ log', (m.change i now c key).1.Shares s queueId given log' := by
  cases ho : m.observers[i]? with
  | none =>
      rw [change_of_none ho]
      exact ⟨log, h⟩
  | some o =>
      rw [change_eq ho]
      have hlater : Registry.Later s m.registry
          (m.registry.visit o.shared fun _ q => q.note now (o.follow now c key).2).1 :=
        Registry.later_visit _ _ fun _ q => q.tracksWaitTimes_note now _
      have hqueue : (o.told now c key).queueId = o.queueId := by rw [Observer.told_eq]
      have hname := h.shared i o ho
      by_cases hid : o.queueId = queueId
      · refine ⟨_, h.tell [(o.follow now c key).2] _ ho hqueue (o.told_shared now c key)
          (fun _ => hid) ?_ hlater ?_⟩
        · intro _ q capacity hq htallies
          refine ⟨(q.note now (o.follow now c key).2).1, ?_, htallies.note now _⟩
          rw [Observer.told_eq]
          show o.own.map _ = _
          rw [hq]
          rfl
        · rw [hid] at hname
          refine h.registry.visit_self hname _ ?_
          rintro q ⟨capacity, hgiven, htallies⟩
          exact ⟨capacity, hgiven, htallies.note now _⟩
      · refine ⟨_, h.tell [] _ ho hqueue (o.told_shared now c key)
          (fun hne => absurd rfl hne) (fun heq => absurd heq hid) hlater ?_⟩
        rw [List.append_nil]
        refine h.registry.visit _ _ ?_
        intro q hq _
        have hother : m.registry.names[o.shared]? = some queueId :=
          Registry.getElem?_names_iff.mpr ⟨q, hq⟩
        exact absurd (Option.some.inj (hname.symm.trans hother)) hid

/-- An operation on a shared record by which the record takes no note, or on that of another
queue. -/
theorem Shares.onShared (h : m.Shares s queueId given log) (i : Nat) (op : QueueRecord.Op)
    (hobserved : ¬ (Op.onShared i op).Bypasses queueId m) :
    (m.perform (.onShared i op)).1.Shares s queueId given log := by
  have hlater : Registry.Later s m.registry (m.registry.visit i fun _ q => q.perform op).1 :=
    Registry.later_visit _ _ fun _ q => q.tracksWaitTimes_perform op
  refine h.withRegistry hlater (h.registry.visit i _ ?_)
  rintro q hq ⟨capacity, hgiven, htallies⟩
  cases op with
  | note now fact => exact absurd (Registry.getElem?_names_iff.mpr ⟨q, hq⟩) hobserved
  | report now => exact ⟨capacity, hgiven, htallies.report now⟩
  | log id now => exact ⟨capacity, hgiven, htallies.report now⟩

/-- The same for an operation on the record of an observer. -/
theorem Shares.onOwn (h : m.Shares s queueId given log) (i : Nat) (op : QueueRecord.Op)
    (hobserved : ¬ (Op.onOwn i op).Bypasses queueId m) :
    (m.perform (.onOwn i op)).1.Shares s queueId given log := by
  show (m.visitOwn i (·.perform op)).1.Shares s queueId given log
  cases ho : m.observers[i]? with
  | none => rwa [visitOwn_of_none ho]
  | some o =>
      rw [visitOwn_fst ho]
      have hown : o.queueId = queueId → ∀ q capacity, o.own = some q →
          q.Tallies s capacity (factsOf i log) →
            ∃ q', o.own.map (fun q => (q.perform op).1) = some q' ∧
              q'.Tallies s capacity (factsOf i log ++ []) := by
        intro hid q capacity hq htallies
        rw [List.append_nil]
        refine ⟨(q.perform op).1, congrArg (Option.map _) hq, ?_⟩
        cases op with
        | note now fact => exact absurd ⟨o, ho, hid⟩ hobserved
        | report now => exact htallies.report now
        | log id now => exact htallies.report now
      have htold := h.tell [] { o with own := o.own.map fun q => (q.perform op).1 } ho rfl rfl
        (fun hne => absurd rfl hne) hown (Registry.Later.refl _)
        (by rw [List.append_nil]; exact h.registry)
      rwa [List.map_nil, List.append_nil] at htold

theorem Shares.perform (h : m.Shares s queueId given log) (hlocal : s.localStats = true) (op : Op)
    (hobserved : ¬ op.Bypasses queueId m)
    (hgiven : ∀ capacity, op.Makes queueId capacity m → given capacity) :
    ∃ log', (m.perform op).1.Shares s queueId given log' := by
  cases op with
  | lookUp id capacity =>
      refine ⟨log, h.recordFor id ?_⟩
      rintro rfl hcreated
      exact hgiven capacity (.inl ⟨rfl, hcreated⟩)
  | observe id capacity =>
      refine ⟨log, h.observe hlocal id ?_⟩
      rintro rfl i hi
      exact hgiven capacity (.inr ⟨rfl, i, hi⟩)
  | change i now c key => exact h.change i now c key
  | onShared i op => exact ⟨log, h.onShared i op hobserved⟩
  | onOwn i op => exact ⟨log, h.onOwn i op hobserved⟩
  | report now =>
      have hread := h.registry.visitAll (fun _ q => q.toJson now) fun q ⟨c, hc, htallies⟩ =>
        ⟨c, hc, htallies.report now⟩
      exact ⟨log, h.withRegistry (Registry.later_toJson now) hread⟩
  | log now =>
      have hread := h.registry.visitAll (fun id q => q.log id now) fun q ⟨c, hc, htallies⟩ =>
        ⟨c, hc, htallies.report now⟩
      exact ⟨log, h.withRegistry (Registry.later_log now) hread⟩

theorem Shares.after (h : m.Shares s queueId given log) (hlocal : s.localStats = true)
    {ops : List Op} (hobserved : ObservedOnly queueId m ops)
    (hgiven : ∀ capacity, Makes queueId capacity m ops → given capacity) :
    ∃ log', (m.after ops).Shares s queueId given log' := by
  induction ops generalizing m log with
  | nil => exact ⟨log, h⟩
  | cons op rest ih =>
      obtain ⟨log', h'⟩ := h.perform hlocal op hobserved.1 fun capacity hmakes =>
        hgiven capacity (.inl hmakes)
      exact ih h' hobserved.2 fun capacity hmakes => hgiven capacity (.inr hmakes)

theorem shares_ofSettings (given : UInt64 → Prop) (hm : ofSettings s = .ok m) :
    m.Shares s queueId given [] := by
  obtain ⟨r, hr, hm⟩ := SetupError.bind_eq_ok_iff.mp hm
  cases hm
  obtain ⟨-, -, hr⟩ := SetupError.bind_eq_ok_iff.mp hr
  cases hr
  refine ⟨⟨rfl, List.nodup_nil, ?_⟩, ⟨?_, List.forall_mem_nil _⟩, ?_⟩
  · intro i q hi
    cases hi
  · intro i o hi
    cases hi
  · intro i o hi
    cases hi

/-! ## The shared record and the records of the observers -/

/-- The observers of a queue. -/
def observersOf (m : Monitor) (queueId : String) : List Observer :=
  m.observers.filter (·.queueId = queueId)

/-- Each observer of a queue keeps a record of its own and finds the shared one, and the figures of
the shared record, the buckets of sizes apart, are those of the others together. -/
structure Pools (m : Monitor) (queueId : String) (owns : List QueueRecord) : Prop where
  own_eq : (m.observersOf queueId).map (·.own) = owns.map some
  shared : ∀ o ∈ m.observersOf queueId, ∃ q, m.registry.records[o.shared]? = some (queueId, q)
  figures : ∀ (i : Nat) q, m.registry.records[i]? = some (queueId, q) → ∀ now,
    (q.report now).2.Aggregates (owns.map fun own => (own.report now).2)

/-- The buckets of sizes are those of the records of the observers together. -/
def PoolsSizeBuckets (m : Monitor) (queueId : String) (owns : List QueueRecord) : Prop :=
  ∀ (i : Nat) q, m.registry.records[i]? = some (queueId, q) → ∀ now,
    (q.report now).2.sizeAtRemove.distribution.Aggregates
      (owns.map fun own => (own.report now).2.sizeAtRemove.distribution)

/-- During a run all records of a queue are made with the same capacity. -/
def MadeAlike (queueId : String) (m : Monitor) (ops : List Op) : Prop :=
  ∀ c c', Makes queueId c m ops → Makes queueId c' m ops → c = c'

/-- With local statistics, and while only the observers of a queue write to its records, the shared
record shows at any time what the records of the observers show together: the counters, the sums,
the extremes and the buckets of waiting times always, and the buckets of sizes if all capacities are
the same. -/
theorem shared_pools_own {m₀ : Monitor} (hm : ofSettings s = .ok m₀) (hlocal : s.localStats = true)
    (queueId : String) {ops : List Op} (hops : ObservedOnly queueId m₀ ops) :
    ∃ owns, (m₀.after ops).Pools queueId owns ∧
      (MadeAlike queueId m₀ ops → (m₀.after ops).PoolsSizeBuckets queueId owns) := by
  obtain ⟨log, h⟩ := (shares_ofSettings (Makes queueId · m₀ ops) hm).after hlocal hops
    fun _ hmakes => hmakes
  obtain ⟨parts, howns, hgiven, hdivide⟩ := h.accounts.exists_parts
  refine ⟨parts.map (·.record), ⟨?_, ?_, ?_⟩, ?_⟩
  · rw [List.map_map]
    exact howns
  · intro o ho
    obtain ⟨hmem, hid⟩ := List.mem_filter.mp ho
    obtain ⟨i, hi⟩ := List.getElem?_of_mem hmem
    have hname := h.shared i o hi
    rw [of_decide_eq_true hid] at hname
    exact Registry.getElem?_names_iff.mp hname
  · intro i q hi now
    obtain ⟨capacity, -, htallies⟩ := h.registry.record i q hi
    rw [List.map_map]
    exact htallies.aggregates hdivide now
  · intro halike i q hi now
    obtain ⟨capacity, hcapacity, htallies⟩ := h.registry.record i q hi
    rw [List.map_map]
    exact htallies.sizeBuckets_aggregate hdivide fun p hp =>
      halike _ _ (hgiven p hp) hcapacity

/-- Settings with which observers keep records of their own and remember additions. -/
def ownRecords : Settings := { Settings.standard with localStats := true, trackWaitTimes := true }

/-- Two observers of one queue, and one of another, are told of items while the clock goes back. -/
def shift : List Op :=
  [.observe "work" 8, .observe "rest" 16, .change 0 (.ofMillis 9) .added 1, .observe "work" 8,
    .change 2 (.ofMillis 3) .added 1, .change 1 (.ofMillis 3) .added 2,
    .change 0 (.ofMillis 2) .removed 1, .onShared 0 (.report (.ofMillis 1)),
    .change 2 (.ofMillis 7) .removed 1, .onOwn 0 (.report (.ofMillis 8)),
    .change 2 (.ofMillis 6) .dropped 5]

/-- The counters of a record, and the sum of its waiting times. -/
def totals (q : QueueRecord) : Nat × Nat × Nat × Option Int :=
  (q.added, q.removed, q.dropped, q.waitTime.map (·.sum))

theorem shared_pools_own_shift :
    ofSettings ownRecords = .ok ⟨⟨ownRecords, []⟩, []⟩ ∧ ownRecords.localStats = true ∧
      ObservedOnly "work" ⟨⟨ownRecords, []⟩, []⟩ shift ∧
      MadeAlike "work" ⟨⟨ownRecords, []⟩, []⟩ shift ∧
      ((after ⟨⟨ownRecords, []⟩, []⟩ shift).registry.records.map fun e => (e.1, totals e.2)) =
        [("work", 2, 2, 1, some 4), ("rest", 1, 0, 0, some 0)] ∧
      ∃ owns, owns.map totals = [(1, 1, 0, some 0), (1, 1, 1, some 4)] ∧
        (after ⟨⟨ownRecords, []⟩, []⟩ shift).Pools "work" owns ∧
        (after ⟨⟨ownRecords, []⟩, []⟩ shift).PoolsSizeBuckets "work" owns := by
  have hmade : ofSettings ownRecords = .ok ⟨⟨ownRecords, []⟩, []⟩ := rfl
  have hobserved : ObservedOnly "work" ⟨⟨ownRecords, []⟩, []⟩ shift :=
    ⟨id, id, id, id, id, id, id, id, id, id, id, trivial⟩
  have hcapacity : ∀ c, Makes "work" c ⟨⟨ownRecords, []⟩, []⟩ shift → c = 8 := by
    intro c hc
    have hgiven := mem_of_makes hc
    simpa [shift] using hgiven
  have halike : MadeAlike "work" ⟨⟨ownRecords, []⟩, []⟩ shift := by
    intro c c' hc hc'
    rw [hcapacity c hc, hcapacity c' hc']
  obtain ⟨owns, hpools, hbuckets⟩ := shared_pools_own hmade rfl "work" hobserved
  have hshown : ((after ⟨⟨ownRecords, []⟩, []⟩ shift).observersOf "work").map
      (fun o => o.own.map totals) = [some (1, 1, 0, some 0), some (1, 1, 1, some 4)] := by
    decide +kernel
  have htotals : (owns.map totals).map some =
      [(1, 1, 0, some 0), (1, 1, 1, some 4)].map some := by
    calc (owns.map totals).map some
        = (owns.map some).map (Option.map totals) := by simp only [List.map_map]; rfl
      _ = _ := by rw [← hpools.own_eq, List.map_map]; exact hshown
  exact ⟨hmade, rfl, hobserved, halike, by decide +kernel, owns,
    List.map_injective_iff.mpr (Option.some_injective _) htotals, hpools, hbuckets halike⟩

end Monitor

end WindowedStats
