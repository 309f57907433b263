import Mathlib.Data.List.Forall2
import WindowedStats.Proofs.GetOrCreate
import WindowedStats.Proofs.LifetimeCounts

/-!
# Which queues a registry logs

During a run the shared records take note of facts, each about the queue of one id
(`Monitor.noted`).  When the registry is logged, the queues come in the order of their ids, and each
of them leaves a block of events of its own: nothing, or its figures and perhaps a warning after
them.

Which of the two it is, is decided by the numbers of additions and of drops alone.  So the queues
whose figures are logged are those that an addition or a drop was noted for
(`Monitor.log_tells`).  A queue from which items were only removed stays silent like one that
nothing was noted for, although something has happened to it
(`Monitor.log_silent_after_removal`).

The proof keeps the facts of one queue.  Its shared record tallies them, and as long as it has none
there are no facts (`Registry.Records`).  Every operation preserves this, with the facts that it
adds; and the walk through the records finds each of them so (`Registry.exists_of_mem_walk`).
-/

namespace WindowedStats

open QueueRecord (Fact)

/-! ## The facts of a run -/

/-- The facts about the queue with an id. -/
def factsAbout (queueId : String) (log : List (String × Fact)) : List Fact :=
  (log.filter (·.1 = queueId)).map (·.2)

theorem factsAbout_append (queueId : String) (log more : List (String × Fact)) :
    factsAbout queueId (log ++ more) = factsAbout queueId log ++ factsAbout queueId more := by
  rw [factsAbout, List.filter_append, List.map_append]
  rfl

/-- The fact that the record under a number takes note of, with the id of its queue. -/
def Registry.tagged (r : Registry) (i : Nat) (fact : Fact) : List (String × Fact) :=
  (r.names[i]?.map (·, fact)).toList

namespace Monitor

/-- The facts that shared records take note of at an operation, with the ids of their queues. -/
def Op.noted (m : Monitor) : Op → List (String × Fact)
  | .change i now c key =>
    m.observers[i]?.elim [] fun o => m.registry.tagged o.shared (o.follow now c key).2
  | .onShared i (.note _ fact) => m.registry.tagged i fact
  | _ => []

/-- The facts that shared records take note of during a run, with the ids of their queues. -/
def noted : Monitor → List Op → List (String × Fact)
  | _, [] => []
  | m, op :: rest => op.noted m ++ noted (m.perform op).1 rest

end Monitor

/-! ## The facts that a shared record stands for -/

namespace Registry

/-- The shared record of a queue tallies some facts; without a record there are none. -/
structure Records (s : Settings) (queueId : String) (facts : List Fact) (r : Registry) : Prop where
  keeps : r.Keeps s queueId fun q => ∃ capacity, q.Tallies s capacity facts
  unknown : queueId ∉ r.names → facts = []

variable {s : Settings} {queueId : String} {facts : List Fact} {r : Registry}

/-- The fact is about the one queue whose record takes note of it. -/
theorem factsAbout_tagged (r : Registry) (queueId : String) (i : Nat) (fact : Fact) :
    factsAbout queueId (r.tagged i fact) =
      if r.names[i]? = some queueId then [fact] else [] := by
  rw [tagged]
  cases r.names[i]? with
  | none => rfl
  | some id =>
      by_cases hid : id = queueId
      · simp [factsAbout, hid]
      · simp [factsAbout, hid]

/-- A visit by which no record takes note of anything. -/
theorem Records.visit {α : Type} (h : r.Records s queueId facts) (i : Nat)
    (f : String → QueueRecord → QueueRecord × α)
    (hf : ∀ q capacity, r.records[i]? = some (queueId, q) → q.Tallies s capacity facts →
      (f queueId q).1.Tallies s capacity facts) :
    (r.visit i f).1.Records s queueId facts where
  keeps := h.keeps.visit i f fun q hq ⟨capacity, htallies⟩ => ⟨capacity, hf q capacity hq htallies⟩
  unknown hnone := h.unknown (names_visit r i f ▸ hnone)

/-- A record takes note of a fact. -/
theorem Records.note (h : r.Records s queueId facts) (i : Nat) (now : Duration) (fact : Fact) :
    (r.visit i fun _ q => q.note now fact).1.Records s queueId
      (facts ++ factsAbout queueId (r.tagged i fact)) := by
  rw [factsAbout_tagged]
  split
  · next hi =>
    refine ⟨h.keeps.visit_self hi _ ?_, ?_⟩
    · rintro q ⟨capacity, htallies⟩
      exact ⟨capacity, htallies.note now fact⟩
    · intro hnone
      rw [names_visit] at hnone
      exact absurd (List.mem_of_getElem? hi) hnone
  · next hother =>
    rw [List.append_nil]
    refine h.visit i _ ?_
    intro q capacity hq
    exact absurd (getElem?_names_iff.mpr ⟨q, hq⟩) hother

theorem Records.recordFor (h : r.Records s queueId facts) (id : String) (capacity : UInt64) :
    (r.recordFor id capacity).1.Records s queueId facts where
  keeps := by
    refine h.keeps.recordFor id capacity ?_
    rintro - - hnone q hq
    rw [h.unknown hnone]
    exact ⟨capacity, QueueRecord.tallies_newRecord hq⟩
  unknown hnone := by
    have hlater : Later s r (r.recordFor id capacity).1 := later_recordFor id capacity
    exact h.unknown fun hmem => hnone (hlater.names_prefix.subset hmem)

/-- Going through all records to read them. -/
theorem Records.visitAll {α : Type} (h : r.Records s queueId facts)
    (f : String → QueueRecord → QueueRecord × α)
    (hf : ∀ q capacity, q.Tallies s capacity facts → (f queueId q).1.Tallies s capacity facts) :
    (r.visitAll f).1.Records s queueId facts where
  keeps := h.keeps.visitAll f fun q ⟨capacity, htallies⟩ => ⟨capacity, hf q capacity htallies⟩
  unknown hnone := h.unknown (names_visitAll r f ▸ hnone)

theorem records_ofSettings (h : ofSettings s = .ok r) : r.Records s queueId [] := by
  obtain ⟨-, -, h⟩ := SetupError.bind_eq_ok_iff.mp h
  cases h
  exact ⟨⟨rfl, List.nodup_nil, fun i q hi => by cases hi⟩, fun _ => rfl⟩

end Registry

namespace Monitor

variable {s : Settings} {queueId : String} {facts : List Fact} {m m₀ : Monitor}

/-- Whatever is done to a monitor, the shared record of a queue tallies the facts that are noted. -/
theorem records_perform (h : m.registry.Records s queueId facts) (op : Op) :
    (m.perform op).1.registry.Records s queueId (facts ++ factsAbout queueId (op.noted m)) := by
  have hsilent : op.noted m = [] → (m.perform op).1.registry.Records s queueId facts →
      (m.perform op).1.registry.Records s queueId (facts ++ factsAbout queueId (op.noted m)) := by
    intro hnone hsame
    rw [hnone]
    exact (List.append_nil facts).symm ▸ hsame
  cases op with
  | lookUp id capacity => exact hsilent rfl (h.recordFor id capacity)
  | observe id capacity =>
      refine hsilent rfl ?_
      show (m.observe id capacity).1.registry.Records s queueId facts
      rw [observe_registry]
      exact h.recordFor id capacity
  | change i now c key =>
      cases hi : m.observers[i]? with
      | none =>
          refine hsilent (by rw [Op.noted, hi]; rfl) ?_
          rwa [perform, change_of_none hi]
      | some o =>
          rw [perform, change_eq hi, Op.noted, hi]
          exact h.note o.shared now _
  | onShared i op =>
      cases op with
      | note now fact => exact h.note i now fact
      | report now =>
          exact hsilent rfl <| h.visit i (fun _ q => q.perform (.report now))
            fun q _ _ htallies => htallies.report now
      | log id now =>
          exact hsilent rfl <| h.visit i (fun _ q => q.perform (.log id now))
            fun q _ _ htallies => htallies.report now
  | onOwn i op =>
      refine hsilent rfl ?_
      show (m.visitOwn i (·.perform op)).1.registry.Records s queueId facts
      rwa [visitOwn_eq]
  | report now =>
      exact hsilent rfl <| h.visitAll (fun _ q => q.toJson now)
        fun q _ htallies => htallies.report now
  | log now =>
      exact hsilent rfl <| h.visitAll (fun id q => q.log id now)
        fun q _ htallies => htallies.report now

theorem records_after (h : m.registry.Records s queueId facts) (ops : List Op) :
    (m.after ops).registry.Records s queueId (facts ++ factsAbout queueId (m.noted ops)) := by
  induction ops generalizing m facts with
  | nil => exact (List.append_nil facts).symm ▸ h
  | cons op rest ih =>
      rw [noted, factsAbout_append, ← List.append_assoc]
      exact ih (records_perform h op)

/-- The facts of a queue are those that were noted about it since the settings made the monitor. -/
theorem records_of_ofSettings (hm : ofSettings s = .ok m₀) (ops : List Op) (queueId : String) :
    (m₀.after ops).registry.Records s queueId (factsAbout queueId (m₀.noted ops)) := by
  obtain ⟨r, hr, h⟩ := SetupError.bind_eq_ok_iff.mp hm
  cases h
  exact records_after (Registry.records_ofSettings hr) ops

end Monitor

/-! ## The walk through the records -/

namespace Registry

variable {s : Settings} {r : Registry}

/-- A walk through all records finds each of them as its kind says, and its results are those of the
records that it finds. -/
theorem exists_of_mem_walk {α : Type} {f : String → QueueRecord → QueueRecord × α}
    {kind : String → QueueRecord → Prop} (h : ∀ queueId, r.Keeps s queueId (kind queueId))
    (hf : ∀ queueId q, kind queueId q → kind queueId (f queueId q).1) {e : String × α}
    (he : e ∈ (r.visitAll f).2) : ∃ q, kind e.1 q ∧ e.2 = (f e.1 q).2 := by
  refine (visitAll_induction (r := r) (f := f)
    (motive := fun r' done => (∀ queueId, r'.Keeps s queueId (kind queueId)) ∧
      ∀ e ∈ done, ∃ q, kind e.1 q ∧ e.2 = (f e.1 q).2) ⟨h, List.forall_mem_nil _⟩ ?_).2 e he
  rintro r' done queueId i hi ⟨hkeeps, hdone⟩
  obtain ⟨q, hq⟩ := getElem?_names_iff.mp (getElem?_names_of_find? hi)
  constructor
  · intro id
    exact (hkeeps id).visit i f fun q _ => hf id q
  · rw [visit_eq hq]
    refine List.forall_mem_append.mpr ⟨hdone, List.forall_mem_singleton.mpr ?_⟩
    exact ⟨q, (hkeeps queueId).record i q hq, rfl⟩

/-- So each of the ids has its result, in their order. -/
theorem forall₂_ids_walk {α : Type} {f : String → QueueRecord → QueueRecord × α}
    {kind : String → QueueRecord → Prop} {told : String → α → Prop}
    (h : ∀ queueId, r.Keeps s queueId (kind queueId))
    (hf : ∀ queueId q, kind queueId q → kind queueId (f queueId q).1)
    (htold : ∀ queueId q, kind queueId q → told queueId (f queueId q).2) :
    List.Forall₂ told r.ids ((r.visitAll f).2.map (·.2)) := by
  rw [← visitAll_keys r f, List.forall₂_map_left_iff, List.forall₂_map_right_iff, List.forall₂_same]
  intro e he
  obtain ⟨q, hq, heq⟩ := exists_of_mem_walk h hf he
  rw [heq]
  exact htold e.1 q hq

end Registry

/-! ## What is logged of one queue -/

/-- The id of the queue that an event is about. -/
def Event.queueId? : Event → Option String
  | lateUpdate _ => none
  | recordCreated queueId _ => some queueId
  | queueReported queueId _ => some queueId
  | manyDrops queueId _ => some queueId

/-- Whether there is an addition or a drop among some facts. -/
def addedOrDropped (facts : List Fact) : Bool := facts.any fun fact => !fact.isRemoval

/-- The block of events that a queue leaves in the log after some facts were noted for it. -/
inductive Logged (s : Settings) (queueId : String) (facts : List Fact) : List Event → Prop
  | nothing : addedOrDropped facts = false → Logged s queueId facts []
  | figures {capacity : UInt64} {r : QueueReport} : addedOrDropped facts = true →
      r.AccountsFor s capacity facts →
      Logged s queueId facts
        (.queueReported queueId r :: if r.dropsMany then [.manyDrops queueId r] else [])

/-- The queues that the events of a level are about. -/
def queuesAt (level : Level) (events : List Event) : List (Option String) :=
  (events.filter (·.level = level)).map (·.queueId?)

theorem queuesAt_append (level : Level) (events more : List Event) :
    queuesAt level (events ++ more) = queuesAt level events ++ queuesAt level more := by
  rw [queuesAt, List.filter_append, List.map_append]
  rfl

section Logged

variable {s : Settings} {queueId : String} {facts : List Fact} {block : List Event}

theorem addedOrDropped_eq_false_iff :
    addedOrDropped facts = false ↔ .addition ∉ facts ∧ .drop ∉ facts := by
  rw [addedOrDropped, List.any_eq_false]
  constructor
  · intro h
    exact ⟨fun hadd => absurd rfl (h _ hadd), fun hdrop => absurd rfl (h _ hdrop)⟩
  · rintro ⟨hadd, hdrop⟩ fact hfact
    cases fact with
    | addition => exact absurd hfact hadd
    | removal size wait => exact Bool.false_ne_true
    | drop => exact absurd hfact hdrop

/-- A report is idle exactly if nothing but removals was noted. -/
theorem QueueReport.AccountsFor.isIdle_eq {r : QueueReport} {capacity : UInt64}
    (h : r.AccountsFor s capacity facts) : r.isIdle = !addedOrDropped facts := by
  rw [Bool.eq_iff_iff, Bool.not_eq_true', addedOrDropped_eq_false_iff, QueueReport.isIdle, h.added,
    h.dropped, Bool.and_eq_true, decide_eq_true_eq, decide_eq_true_eq, List.count_eq_zero,
    List.count_eq_zero]

theorem QueueRecord.Tallies.logged {q : QueueRecord} {capacity : UInt64}
    (h : q.Tallies s capacity facts) (queueId : String) (now : Duration) :
    Logged s queueId facts (q.log queueId now).2 := by
  have haccounts := h.accountsFor now
  show Logged s queueId facts (QueueRecord.reportEvents queueId (q.report now).2)
  rw [QueueRecord.reportEvents, haccounts.isIdle_eq]
  cases hsome : addedOrDropped facts with
  | false => exact .nothing hsome
  | true => exact .figures hsome haccounts

theorem Logged.reported (h : Logged s queueId facts block) :
    queuesAt .info block = if addedOrDropped facts then [some queueId] else [] := by
  cases h with
  | nothing hsome => rw [hsome]; rfl
  | figures hsome _ =>
      rw [hsome]
      split <;> rfl

theorem Logged.warned (h : Logged s queueId facts block) :
    (queuesAt .warn block).Sublist (if addedOrDropped facts then [some queueId] else []) := by
  cases h with
  | nothing _ => exact List.nil_sublist _
  | figures hsome _ =>
      rw [hsome]
      split
      · exact List.Sublist.refl _
      · exact List.nil_sublist _

end Logged

/-! ## What is logged of all queues -/

section Blocks

variable {s : Settings} {facts : String → List Fact} {ids : List String}
  {blocks : List (List Event)}

theorem filter_addedOrDropped_cons (queueId : String) (rest : List String) :
    ((queueId :: rest).filter (addedOrDropped <| facts ·)).map some =
      (if addedOrDropped (facts queueId) then [some queueId] else []) ++
        (rest.filter (addedOrDropped <| facts ·)).map some := by
  rw [List.filter_cons]
  split <;> rfl

theorem reported_flatten (h : List.Forall₂ (fun id => Logged s id (facts id)) ids blocks) :
    queuesAt .info blocks.flatten = (ids.filter (addedOrDropped <| facts ·)).map some := by
  induction h with
  | nil => rfl
  | cons hblock _ ih =>
      rw [List.flatten_cons, queuesAt_append, filter_addedOrDropped_cons, hblock.reported, ih]

theorem warned_flatten (h : List.Forall₂ (fun id => Logged s id (facts id)) ids blocks) :
    (queuesAt .warn blocks.flatten).Sublist
      ((ids.filter (addedOrDropped <| facts ·)).map some) := by
  induction h with
  | nil => exact List.Sublist.refl _
  | cons hblock _ ih =>
      rw [List.flatten_cons, queuesAt_append, filter_addedOrDropped_cons]
      exact hblock.warned.append ih

end Blocks

namespace Monitor

/-- What the log shows if a registry is logged after a run. -/
structure LogTells (s : Settings) (m₀ : Monitor) (ops : List Op) (now : Duration) : Prop where
  /-- The ids are listed in the order of their bytes, none of them twice. -/
  ascending : ((m₀.after ops).registry.ids.map Text.bytes).Pairwise (· < ·)
  /-- Every queue that something was noted for is listed. -/
  listed : ∀ queueId, factsAbout queueId (m₀.noted ops) ≠ [] →
    queueId ∈ (m₀.after ops).registry.ids
  /-- Each listed queue leaves one block, in their order, and there is nothing else. -/
  blocks : ∃ blocks : List (List Event), ((m₀.after ops).registry.log now).2 = blocks.flatten ∧
    List.Forall₂ (fun queueId => Logged s queueId (factsAbout queueId (m₀.noted ops)))
      (m₀.after ops).registry.ids blocks
  /-- The figures are those of the queues that an addition or a drop was noted for, one event for
  each of them, in the order of the listing. -/
  reported : queuesAt .info ((m₀.after ops).registry.log now).2 =
    ((m₀.after ops).registry.ids.filter fun queueId =>
      addedOrDropped (factsAbout queueId (m₀.noted ops))).map some
  /-- Warnings are about some of these queues, at most one about each. -/
  warned : (queuesAt .warn ((m₀.after ops).registry.log now).2).Sublist
    (((m₀.after ops).registry.ids.filter fun queueId =>
      addedOrDropped (factsAbout queueId (m₀.noted ops))).map some)

variable {s : Settings} {m₀ : Monitor}

theorem exists_blocks (hm : ofSettings s = .ok m₀) (ops : List Op) (now : Duration) :
    ∃ blocks : List (List Event), ((m₀.after ops).registry.log now).2 = blocks.flatten ∧
      List.Forall₂ (fun queueId => Logged s queueId (factsAbout queueId (m₀.noted ops)))
        (m₀.after ops).registry.ids blocks := by
  have hkeeps := fun queueId => (records_of_ofSettings hm ops queueId).keeps
  let walk := (m₀.after ops).registry.visitAll fun queueId q => q.log queueId now
  have hevents : ((m₀.after ops).registry.log now).2 = (walk.2.map (·.2)).flatten := by
    rw [← List.flatMap_def]
    rfl
  refine ⟨walk.2.map (·.2), hevents, Registry.forall₂_ids_walk hkeeps ?_ ?_⟩
  · rintro queueId q ⟨capacity, htallies⟩
    exact ⟨capacity, htallies.report now⟩
  · rintro queueId q ⟨capacity, htallies⟩
    exact htallies.logged queueId now

/-- Whatever happened during a run, the log tells of the queues that an addition or a drop was noted
for, and of no others. -/
theorem log_tells (hm : ofSettings s = .ok m₀) (ops : List Op) (now : Duration) :
    m₀.LogTells s ops now := by
  have hrecords := records_of_ofSettings hm ops
  obtain ⟨blocks, hevents, hblocks⟩ := exists_blocks hm ops now
  constructor
  case ascending => exact Registry.ids_ascending (hrecords "").keeps.names_nodup
  case listed =>
    intro queueId hsome
    rw [Registry.mem_ids_iff]
    by_contra hnone
    exact hsome ((hrecords queueId).unknown hnone)
  case blocks => exact ⟨blocks, hevents, hblocks⟩
  case reported =>
    rw [hevents]
    exact reported_flatten hblocks
  case warned =>
    rw [hevents]
    exact warned_flatten hblocks

/-- Three queues, made in another order than that of their ids: an item is added to the first one,
one of the second is dropped, and one is removed from the third.  The figures of two are logged. -/
theorem log_tells_of_two :
    ∃ (m₀ : Monitor) (ops : List Op), ofSettings .standard = .ok m₀ ∧
      m₀.noted ops = [("b", .addition), ("a", .drop), ("c", .removal 0 none)] ∧
      queuesAt .info ((m₀.after ops).registry.log .zero).2 = [some "a", some "b"] := by
  let ops : List Op := [.lookUp "b" 16, .onShared 0 (.note .zero .addition), .lookUp "a" 8,
    .lookUp "c" 8, .onShared 1 (.note .zero .drop), .onShared 2 (.note .zero (.removal 0 none))]
  let m₀ : Monitor := ⟨⟨.standard, []⟩, []⟩
  have hnoted : m₀.noted ops = [("b", .addition), ("a", .drop), ("c", .removal 0 none)] := by
    decide +kernel
  have hnames : (m₀.after ops).registry.names = ["b", "a", "c"] := by decide +kernel
  have hids : (m₀.after ops).registry.ids = ["a", "b", "c"] := by
    show (m₀.after ops).registry.names.mergeSort _ = _
    rw [hnames]
    simp [List.mergeSort]
  have hm : ofSettings .standard = .ok m₀ := rfl
  have hseen := log_tells hm ops .zero
  refine ⟨m₀, ops, hm, hnoted, ?_⟩
  rw [hseen.reported, hids, hnoted]
  rfl

/-- An item is removed from a queue whose additions nobody was told of.  This is noted, but the log
shows nothing of it at any time. -/
theorem log_silent_after_removal :
    ∃ (m₀ : Monitor) (ops : List Op), ofSettings .standard = .ok m₀ ∧
      ops = [.observe "work" 8, .change 0 .zero .removed 1] ∧
      factsAbout "work" (m₀.noted ops) = [.removal 0 none] ∧
      (m₀.after ops).registry.ids = ["work"] ∧
      ∀ now, ((m₀.after ops).registry.log now).2 = [] := by
  let ops : List Op := [.observe "work" 8, .change 0 .zero .removed 1]
  let m₀ : Monitor := ⟨⟨.standard, []⟩, []⟩
  have hfacts : factsAbout "work" (m₀.noted ops) = [.removal 0 none] := by decide +kernel
  have hids : (m₀.after ops).registry.ids = ["work"] := by
    have hnames : (m₀.after ops).registry.names = ["work"] := by decide +kernel
    show (m₀.after ops).registry.names.mergeSort _ = _
    rw [hnames, List.mergeSort_singleton]
  have hm : ofSettings .standard = .ok m₀ := rfl
  refine ⟨m₀, ops, hm, rfl, hfacts, hids, ?_⟩
  intro now
  obtain ⟨blocks, hevents, hblocks⟩ := exists_blocks hm ops now
  rw [hids] at hblocks
  obtain ⟨block, rest, hblock, hrest, rfl⟩ := List.forall₂_cons_left_iff.mp hblocks
  rw [hfacts] at hblock
  cases hrest
  cases hblock with
  | nothing _ => exact hevents
  | figures hsome _ => cases hsome

end Monitor

end WindowedStats
