import WindowedStats.Proofs.QueueLogs
import WindowedStats.Proofs.RecordNotes

/-!
# Records last

A record is changed by operations on it and by nothing else.  What becomes of it in this way
(`QueueRecord.Becomes`) has the thresholds and the windows that it was made with
(`Becomes.shape_eq`).

A registry goes on from another one if every record still stands under its number and id, as what
became of it (`Registry.Continues`).  The operations that go through the records keep the ids as
well; only asking for a record can add one.
-/

namespace WindowedStats

open QueueRecord (Fact)

/-! ## The shape of a record -/

/-- What of a rate is fixed when it is made. -/
structure ScaledRate.Shape where
  span : Nat
  tickMillis : Nat
  windowMillis : Nat
  scale : Float

/-- What of a record is fixed when it is made: the thresholds of its histograms, and the windows of
its rates. -/
structure QueueRecord.Shape where
  sizeMarks : List Int
  waitMarks : Option (List Int)
  rates : Option (ScaledRate.Shape × ScaledRate.Shape × ScaledRate.Shape)

namespace ScaledRate

def shape (r : ScaledRate) : Shape :=
  ⟨r.tracker.ring.span, r.tracker.tickMillis, r.tracker.windowMillis, r.scale⟩

theorem shape_update (r : ScaledRate) (count millis : Nat) :
    (r.update count millis).1.shape = r.shape := by
  rw [update]
  rcases Nat.lt_or_ge (millis / r.tracker.tickMillis) r.tracker.ring.oldestTick with hlate | hin
  · rw [RateTracker.update_of_lt hlate]
  · rw [RateTracker.update_of_le hin]
    simp only [shape, TickRing.bump, TickRing.span_advance]

theorem shape_rateAt (r : ScaledRate) (millis : Nat) : (r.rateAt millis).1.shape = r.shape := by
  simp only [rateAt, RateTracker.advance, shape, TickRing.span_advance]

end ScaledRate

namespace QueueRates

def shape (r : QueueRates) : ScaledRate.Shape × ScaledRate.Shape × ScaledRate.Shape :=
  (r.add.shape, r.remove.shape, r.drop.shape)

theorem shape_count (r : QueueRates) (fact : Fact) (millis : Nat) :
    (r.count fact millis).shape = r.shape := by
  cases fact with
  | addition => exact congrArg (·, r.remove.shape, r.drop.shape) (r.add.shape_update 1 millis)
  | removal size wait =>
      exact congrArg (r.add.shape, ·, r.drop.shape) (r.remove.shape_update 1 millis)
  | drop => exact congrArg (r.add.shape, r.remove.shape, ·) (r.drop.shape_update 1 millis)

theorem shape_readRates (r : QueueRates) (millis : Nat) :
    (QueueRecord.readRates millis r).1.shape = r.shape := by
  simp only [QueueRecord.readRates, shape, ScaledRate.shape_rateAt]

end QueueRates

theorem Histogram.marks_push (h : Histogram) (v : Int) : (h.push v).marks = h.marks := by
  rw [push_eq]
  split <;> rfl

namespace QueueRecord

def shape (q : QueueRecord) : Shape :=
  ⟨q.sizeAtRemove.marks, q.waitTime.map (·.marks), q.rates.map (·.shape)⟩

theorem shape_tallied (q : QueueRecord) (now : Duration) (fact : Fact) :
    (q.tallied now fact).shape = q.shape := by
  cases fact with
  | addition => rfl
  | removal size wait =>
      have hwaits : (wait.elim q.waitTime fun w => q.waitTime.map (·.push (waitMark w))).map
          (·.marks) = q.waitTime.map (·.marks) := by
        cases wait with
        | none => rfl
        | some w =>
            refine (Option.map_map _ _ _).trans ?_
            exact congrArg (Option.map · q.waitTime) (funext fun h => h.marks_push _)
      simp only [shape, tallied, Histogram.marks_push, hwaits]
  | drop => rfl

theorem shape_note (q : QueueRecord) (now : Duration) (fact : Fact) :
    (q.note now fact).1.shape = q.shape := by
  have hrates : (q.rates.map (·.count fact now.counterMillis)).map (·.shape) =
      q.rates.map (·.shape) := by
    refine (Option.map_map _ _ _).trans ?_
    exact congrArg (Option.map · q.rates) (funext fun r => r.shape_count fact _)
  rw [note_fst, ← q.shape_tallied now fact]
  show Shape.mk _ _ _ = Shape.mk _ _ _
  rw [hrates]
  cases fact <;> rfl

theorem shape_report (q : QueueRecord) (now : Duration) : (q.report now).1.shape = q.shape := by
  have hrates : ((q.rates.map (readRates now.counterMillis)).map (·.1)).map (·.shape) =
      q.rates.map (·.shape) := by
    rw [Option.map_map, Option.map_map]
    exact congrArg (Option.map · q.rates) (funext fun r => r.shape_readRates _)
  exact congrArg (Shape.mk _ _) hrates

theorem shape_perform (q : QueueRecord) (op : Op) : (q.perform op).1.shape = q.shape := by
  cases op with
  | note now fact => exact q.shape_note now fact
  | report now => exact q.shape_report now
  | log queueId now => exact q.shape_report now

/-- Some operations on the first record, one after the other, lead to the second one. -/
def Becomes (q q' : QueueRecord) : Prop :=
  ∃ ops : List Op, ops.foldl (fun q op => (q.perform op).1) q = q'

namespace Becomes

variable {q q' q'' : QueueRecord}

theorem refl (q : QueueRecord) : q.Becomes q := ⟨[], rfl⟩

theorem trans (h : q.Becomes q') (h' : q'.Becomes q'') : q.Becomes q'' := by
  obtain ⟨ops, rfl⟩ := h
  obtain ⟨more, rfl⟩ := h'
  exact ⟨ops ++ more, List.foldl_append⟩

theorem perform (q : QueueRecord) (op : Op) : q.Becomes (q.perform op).1 := ⟨[op], rfl⟩

theorem shape_eq (h : q.Becomes q') : q'.shape = q.shape := by
  obtain ⟨ops, rfl⟩ := h
  exact List.foldlRecOn (motive := fun (q' : QueueRecord) => q'.shape = q.shape) ops _ rfl
    fun q' hq' op _ => (q'.shape_perform op).trans hq'

end Becomes

end QueueRecord

theorem Settings.sizeMarks_newRecord {s : Settings} {capacity : UInt64} {q : QueueRecord}
    (h : s.newRecord capacity = .ok q) :
    q.shape.sizeMarks = queueSizeThresholds capacity s.capacityCap := by
  obtain ⟨rates, -, h⟩ := SetupError.bind_eq_ok_iff.mp h
  obtain ⟨waitTime, -, h⟩ := SetupError.bind_eq_ok_iff.mp h
  obtain ⟨sizes, hsizes, h⟩ := SetupError.bind_eq_ok_iff.mp h
  cases h
  obtain ⟨t, ht, rfl⟩ := Histogram.ofMarks_eq_ok_iff.mp hsizes
  exact ht

/-! ## Registries go on -/

namespace Registry

/-- Every record of the first registry stands in the second one under its number and id, as what
became of it. -/
structure Continues (r r' : Registry) : Prop where
  settings_eq : r'.settings = r.settings
  record : ∀ (i : Nat) queueId q, r.records[i]? = some (queueId, q) →
    ∃ q', r'.records[i]? = some (queueId, q') ∧ q.Becomes q'

variable {r r' r'' : Registry}

theorem Continues.refl (r : Registry) : r.Continues r := ⟨rfl, fun _ _ q h => ⟨q, h, .refl q⟩⟩

theorem Continues.trans (h : r.Continues r') (h' : r'.Continues r'') : r.Continues r'' := by
  refine ⟨h'.settings_eq.trans h.settings_eq, ?_⟩
  intro i queueId q hq
  obtain ⟨q', hq', hbecomes⟩ := h.record i queueId q hq
  obtain ⟨q'', hq'', hbecomes'⟩ := h'.record i queueId q' hq'
  exact ⟨q'', hq'', hbecomes.trans hbecomes'⟩

section Visits

variable {α : Type} {f : String → QueueRecord → QueueRecord × α}

theorem continues_visit (r : Registry) (i : Nat)
    (hf : ∀ queueId (q : QueueRecord), q.Becomes (f queueId q).1) :
    r.Continues (r.visit i f).1 := by
  refine ⟨by rw [visit_fst], ?_⟩
  intro k queueId q hk
  rw [getElem?_visit, hk, Option.map_some]
  by_cases hik : i = k
  · rw [if_pos hik]
    exact ⟨_, rfl, hf queueId q⟩
  · rw [if_neg hik]
    exact ⟨q, rfl, .refl q⟩

/-- What holds at first and is kept by each visit to the record of an id holds after going through
all records. -/
theorem visitAll_induction {r : Registry} {f : String → QueueRecord → QueueRecord × α}
    {motive : Registry → List (String × α) → Prop} (hfirst : motive r [])
    (hvisit : ∀ r' done queueId i, r'.find? queueId = some i → motive r' done →
      motive (r'.visit i f).1 (done ++ ((r'.visit i f).2.map (queueId, ·)).toList)) :
    motive (r.visitAll f).1 (r.visitAll f).2 := by
  rw [visitAll]
  refine List.foldlRecOn (motive := fun (acc : Registry × List (String × α)) =>
    motive acc.1 acc.2) r.ids _ hfirst ?_
  rintro ⟨r', done⟩ hacc queueId -
  cases hfind : r'.find? queueId with
  | none => simpa only [hfind] using hacc
  | some i => simpa only [hfind] using hvisit r' done queueId i hfind hacc

theorem continues_visitAll (r : Registry)
    (hf : ∀ queueId (q : QueueRecord), q.Becomes (f queueId q).1) :
    r.Continues (r.visitAll f).1 := by
  refine visitAll_induction (motive := fun r' _ => r.Continues r') (.refl r) ?_
  intro r' _ _ i _ hacc
  exact hacc.trans (r'.continues_visit i hf)

theorem names_visitAll (r : Registry) (f : String → QueueRecord → QueueRecord × α) :
    (r.visitAll f).1.names = r.names := by
  refine visitAll_induction (motive := fun r' _ => r'.names = r.names) rfl ?_
  intro r' _ _ i _ hacc
  exact (r'.names_visit i f).trans hacc

/-- A result of going through all records is a result for one of them. -/
theorem exists_of_mem_visitAll {r : Registry} {e : String × α} (h : e ∈ (r.visitAll f).2) :
    ∃ queueId q, e.2 = (f queueId q).2 := by
  refine visitAll_induction (r := r) (f := f)
    (motive := fun _ done => ∀ e ∈ done, ∃ queueId q, e.2 = (f queueId q).2)
    (List.forall_mem_nil _) ?_ e h
  intro r' done queueId i _ hacc
  refine List.forall_mem_append.mpr ⟨hacc, ?_⟩
  intro e he
  rw [visit_snd, Option.map_map, Option.mem_toList, Option.map_eq_some_iff] at he
  obtain ⟨entry, -, rfl⟩ := he
  exact ⟨entry.1, entry.2, rfl⟩

/-- A walk that visits the record of each id it finds gives one result for each of the ids, since a
visit keeps all ids. -/
theorem keys_foldl_visit
    {g : Registry × List (String × α) → String → Registry × List (String × α)}
    (hfound : ∀ acc queueId i, acc.1.find? queueId = some i → g acc queueId =
      ((acc.1.visit i f).1, acc.2 ++ ((acc.1.visit i f).2.map (queueId, ·)).toList))
    {ids : List String} {acc : Registry × List (String × α)}
    (hids : ∀ queueId ∈ ids, queueId ∈ acc.1.names) :
    (ids.foldl g acc).2.map (·.1) = acc.2.map (·.1) ++ ids := by
  induction ids generalizing acc with
  | nil => exact (List.append_nil _).symm
  | cons queueId rest ih =>
      obtain ⟨hid, hrest⟩ := List.forall_mem_cons.mp hids
      obtain ⟨i, hi⟩ := Option.ne_none_iff_exists'.mp (mt find?_eq_none_iff.mp (not_not_intro hid))
      obtain ⟨hlt, -, -⟩ := List.findIdx?_eq_some_iff_getElem.mp hi
      rw [List.foldl_cons, hfound acc queueId i hi, ih (by rwa [names_visit]), visit_snd,
        List.getElem?_eq_getElem hlt]
      simp

/-- Each id is found, so going through all records gives one result for each of them. -/
theorem visitAll_keys (r : Registry) (f : String → QueueRecord → QueueRecord × α) :
    (r.visitAll f).2.map (·.1) = r.ids := by
  rw [visitAll]
  refine keys_foldl_visit (f := f) ?_ fun queueId hid =>
    (List.mergeSort_perm _ _).mem_iff.mp hid
  rintro ⟨r', done⟩ queueId i hi
  simp only [hi]

end Visits

theorem continues_recordFor (r : Registry) (queueId : String) (capacity : UInt64) :
    r.Continues (r.recordFor queueId capacity).1 := by
  simp only [recordFor]
  split
  · exact .refl r
  · cases r.settings.newRecord capacity with
    | error e => exact .refl r
    | ok q =>
        refine ⟨rfl, ?_⟩
        intro i id q' hi
        exact ⟨q', (getElem?_concat_of_eq_some hi _).2, .refl q'⟩

end Registry

end WindowedStats
