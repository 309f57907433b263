import WindowedStats.Proofs.AlikeRecords
import WindowedStats.Proofs.Sessions

/-!
# Readings do not disturb

Reading figures changes a session: it moves the windows of the rates that are read.  Still nobody
can tell from a session how often it has been read, as long as its clock never goes back.

The plan is that of a noninterference proof.  Two sessions are alike if they show the same time and
their records are alike at it (`Session.Alike`).  Whatever is done to both of them, the outcome is the
same and they stay alike (`Session.Alike.perform`); and they stay alike if only one of them is read
(`Session.Alike.perform_read`).  So the readings may be left out of a session one by one.
-/

namespace List.Forall₂

variable {α β γ : Type} {R : α → β → Prop} {l : List α} {l' : List β}

theorem getElem? (h : List.Forall₂ R l l') (i : Nat) : Option.Rel R l[i]? l'[i]? := by
  induction h generalizing i with
  | nil => exact .none
  | cons hab _ ih =>
      cases i with
      | zero => exact .some hab
      | succ i => exact ih i

theorem set (h : List.Forall₂ R l l') (i : Nat) {a : α} {b : β} (hab : R a b) :
    List.Forall₂ R (l.set i a) (l'.set i b) := by
  induction h generalizing i with
  | nil => exact .nil
  | cons hhead htail ih =>
      cases i with
      | zero => exact .cons hab htail
      | succ i => exact .cons hhead (ih i)

theorem modify (h : List.Forall₂ R l l') (i : Nat) {f : α → α} {g : β → β}
    (hfg : ∀ a b, R a b → R (f a) (g b)) : List.Forall₂ R (l.modify i f) (l'.modify i g) := by
  induction h generalizing i with
  | nil =>
      rw [List.modify_nil, List.modify_nil]
      exact .nil
  | cons hhead htail ih =>
      cases i with
      | zero => exact .cons (hfg _ _ hhead) htail
      | succ i => exact .cons hhead (ih i)

theorem modify_left (h : List.Forall₂ R l l') (i : Nat) {f : α → α}
    (hf : ∀ a b, R a b → R (f a) b) : List.Forall₂ R (l.modify i f) l' := by
  induction h generalizing i with
  | nil =>
      rw [List.modify_nil]
      exact .nil
  | cons hhead htail ih =>
      cases i with
      | zero => exact .cons (hf _ _ hhead) htail
      | succ i => exact .cons hhead (ih i)

theorem map_eq (h : List.Forall₂ R l l') {f : α → γ} {g : β → γ} (hfg : ∀ a b, R a b → f a = g b) :
    l.map f = l'.map g := by
  induction h with
  | nil => rfl
  | cons hhead _ ih => exact congrArg₂ List.cons (hfg _ _ hhead) ih

end List.Forall₂

namespace WindowedStats

/-! ## Readings of one record -/

namespace QueueRecord

theorem blindAt_toJson (now : Duration) : BlindAt now.counterMillis (·.toJson now) := by
  intro q q' h
  obtain ⟨hstate, hreport⟩ := blindAt_report now h
  exact ⟨hstate, congrArg QueueReport.toJson hreport⟩

theorem blindAt_log (queueId : String) (now : Duration) :
    BlindAt now.counterMillis (·.log queueId now) := by
  intro q q' h
  obtain ⟨hstate, hreport⟩ := blindAt_report now h
  exact ⟨hstate, congrArg (reportEvents queueId) hreport⟩

theorem blindAt_read (now : Duration) (reading : Reading) :
    BlindAt now.counterMillis (·.read now reading) := by
  intro q q' h
  cases reading with
  | report =>
      obtain ⟨hstate, hanswer⟩ := blindAt_report now h
      exact ⟨hstate, congrArg (fun r => Outcome.mk (.report r) []) hanswer⟩
  | json =>
      obtain ⟨hstate, hanswer⟩ := blindAt_toJson now h
      exact ⟨hstate, congrArg (fun j => Outcome.mk (.json j) []) hanswer⟩
  | log queueId =>
      obtain ⟨hstate, hanswer⟩ := blindAt_log queueId now h
      exact ⟨hstate, congrArg (Outcome.mk .nothing) hanswer⟩

theorem harmlessAt_toJson (now : Duration) : HarmlessAt now.counterMillis (·.toJson now) :=
  harmlessAt_report now

theorem harmlessAt_log (queueId : String) (now : Duration) :
    HarmlessAt now.counterMillis (·.log queueId now) :=
  harmlessAt_report now

theorem harmlessAt_read (now : Duration) (reading : Reading) :
    HarmlessAt now.counterMillis (·.read now reading) := by
  intro q q' h
  cases reading with
  | report => exact harmlessAt_report now h
  | json => exact harmlessAt_toJson now h
  | log queueId => exact harmlessAt_log queueId now h

end QueueRecord

/-! ## Registries -/

namespace Registry

/-- Two registries are alike if the records under the same numbers have the same ids and are alike. -/
def AlikeAt (millis : Nat) (r r' : Registry) : Prop :=
  ∃ records, r' = { r with records := records } ∧
    List.Forall₂ (fun e e' => e.1 = e'.1 ∧ e.2.AlikeAt millis e'.2) r.records records

namespace AlikeAt

variable {α : Type} {millis later : Nat} {r r' : Registry}
  {f : String → QueueRecord → QueueRecord × α}

theorem mono (h : AlikeAt millis r r') (hle : millis ≤ later) : AlikeAt later r r' := by
  obtain ⟨records, rfl, hrecords⟩ := h
  exact ⟨records, rfl, hrecords.imp fun _ _ he => ⟨he.1, he.2.mono hle⟩⟩

theorem settings_eq (h : AlikeAt millis r r') : r.settings = r'.settings := by
  obtain ⟨records, rfl, -⟩ := h
  rfl

theorem names_eq (h : AlikeAt millis r r') : r.names = r'.names := by
  obtain ⟨records, rfl, hrecords⟩ := h
  exact hrecords.map_eq fun _ _ he => he.1

theorem find?_eq (h : AlikeAt millis r r') (queueId : String) :
    r.find? queueId = r'.find? queueId := by
  have hnames : ∀ r : Registry, r.find? queueId = r.names.findIdx? (· = queueId) := by
    intro r
    rw [names, List.findIdx?_map]
    rfl
  rw [hnames r, hnames r', h.names_eq]

theorem visit (h : AlikeAt millis r r') (hf : ∀ queueId, QueueRecord.BlindAt millis (f queueId))
    (i : Nat) :
    AlikeAt millis (r.visit i f).1 (r'.visit i f).1 ∧ (r.visit i f).2 = (r'.visit i f).2 := by
  obtain ⟨records, rfl, hrecords⟩ := h
  rw [visit_fst, visit_fst, visit_snd, visit_snd]
  refine ⟨⟨_, rfl, hrecords.modify i ?_⟩, (hrecords.getElem? i).map_eq ?_⟩
  · rintro ⟨queueId, q⟩ ⟨-, q'⟩ ⟨rfl, hq⟩
    exact ⟨rfl, (hf queueId hq).1⟩
  · rintro ⟨queueId, q⟩ ⟨-, q'⟩ ⟨rfl, hq⟩
    exact (hf queueId hq).2

theorem visit_left (h : AlikeAt millis r r')
    (hf : ∀ queueId, QueueRecord.HarmlessAt millis (f queueId)) (i : Nat) :
    AlikeAt millis (r.visit i f).1 r' := by
  obtain ⟨records, rfl, hrecords⟩ := h
  rw [visit_fst]
  exact ⟨_, rfl, hrecords.modify_left i fun e _ he => ⟨he.1, hf e.1 he.2⟩⟩

theorem visitAll (h : AlikeAt millis r r')
    (hf : ∀ queueId, QueueRecord.BlindAt millis (f queueId)) :
    AlikeAt millis (r.visitAll f).1 (r'.visitAll f).1 ∧ (r.visitAll f).2 = (r'.visitAll f).2 := by
  have hids : r.ids = r'.ids := by
    show r.names.mergeSort _ = r'.names.mergeSort _
    rw [h.names_eq]
  rw [Registry.visitAll, Registry.visitAll, hids]
  refine List.foldl_rel (r := fun (a b : Registry × List (String × α)) =>
    AlikeAt millis a.1 b.1 ∧ a.2 = b.2) ⟨h, rfl⟩ ?_
  rintro queueId - ⟨r, done⟩ ⟨r', done'⟩ ⟨h, rfl⟩
  simp only [h.find?_eq]
  cases r'.find? queueId with
  | none => exact ⟨h, rfl⟩
  | some i =>
      obtain ⟨hstate, hanswer⟩ := h.visit hf i
      exact ⟨hstate, by simp only [hanswer]⟩

theorem visitAll_left (h : AlikeAt millis r r')
    (hf : ∀ queueId, QueueRecord.HarmlessAt millis (f queueId)) :
    AlikeAt millis (r.visitAll f).1 r' := by
  rw [Registry.visitAll]
  refine List.foldlRecOn (motive := fun (acc : Registry × List (String × α)) =>
    AlikeAt millis acc.1 r') r.ids _ h ?_
  rintro ⟨r, done⟩ hacc queueId -
  cases hfind : r.find? queueId with
  | none => simpa only [hfind] using hacc
  | some i => simpa only [hfind] using AlikeAt.visit_left hacc hf i

theorem toJson (now : Duration) (h : AlikeAt now.counterMillis r r') :
    AlikeAt now.counterMillis (r.toJson now).1 (r'.toJson now).1 ∧
      (r.toJson now).2 = (r'.toJson now).2 := by
  obtain ⟨hstate, hfigures⟩ := h.visitAll fun _ => QueueRecord.blindAt_toJson now
  exact ⟨hstate, congrArg (fun figures => Json.obj (Json.Members.ofList figures)) hfigures⟩

theorem toJson_left (now : Duration) (h : AlikeAt now.counterMillis r r') :
    AlikeAt now.counterMillis (r.toJson now).1 r' :=
  h.visitAll_left fun _ => QueueRecord.harmlessAt_toJson now

theorem log (now : Duration) (h : AlikeAt now.counterMillis r r') :
    AlikeAt now.counterMillis (r.log now).1 (r'.log now).1 ∧ (r.log now).2 = (r'.log now).2 := by
  obtain ⟨hstate, hevents⟩ := h.visitAll fun queueId => QueueRecord.blindAt_log queueId now
  exact ⟨hstate, congrArg (List.flatMap Prod.snd) hevents⟩

theorem log_left (now : Duration) (h : AlikeAt now.counterMillis r r') :
    AlikeAt now.counterMillis (r.log now).1 r' :=
  h.visitAll_left fun queueId => QueueRecord.harmlessAt_log queueId now

theorem recordFor (h : AlikeAt millis r r') (queueId : String) (capacity : UInt64) :
    AlikeAt millis (r.recordFor queueId capacity).1 (r'.recordFor queueId capacity).1 ∧
      (r.recordFor queueId capacity).2 = (r'.recordFor queueId capacity).2 := by
  simp only [Registry.recordFor, h.find?_eq, h.settings_eq]
  cases r'.find? queueId with
  | some i => exact ⟨h, rfl⟩
  | none =>
      cases hq : r'.settings.newRecord capacity with
      | error e => exact ⟨h, rfl⟩
      | ok q =>
          obtain ⟨records, rfl, hrecords⟩ := h
          refine ⟨⟨_, rfl, ?_⟩, by rw [hrecords.length_eq]⟩
          exact List.rel_append hrecords
            (.cons ⟨rfl, QueueRecord.alikeAt_newRecord hq millis⟩ .nil)

end AlikeAt

end Registry

/-! ## Observers and monitors -/

namespace Observer

/-- Two observers are alike if only the records differ that they keep for themselves, and these are
alike. -/
def AlikeAt (millis : Nat) (o o' : Observer) : Prop :=
  ∃ own, o' = { o with own := own } ∧ Option.Rel (QueueRecord.AlikeAt millis) o.own own

namespace AlikeAt

variable {α : Type} {millis later : Nat} {o o' : Observer} {f : QueueRecord → QueueRecord × α}

theorem mono (h : AlikeAt millis o o') (hle : millis ≤ later) : AlikeAt later o o' := by
  obtain ⟨own, rfl, hown⟩ := h
  exact ⟨own, rfl, hown.mono fun _ _ hq => hq.mono hle⟩

theorem visitOwn (h : AlikeAt millis o o') (hf : QueueRecord.BlindAt millis f) :
    AlikeAt millis (o.visitOwn f).1 (o'.visitOwn f).1 ∧ (o.visitOwn f).2 = (o'.visitOwn f).2 := by
  obtain ⟨own, rfl, hown⟩ := h
  rw [visitOwn_fst, visitOwn_fst, visitOwn_snd, visitOwn_snd]
  exact ⟨⟨_, rfl, hown.map fun _ _ hq => (hf hq).1⟩, hown.map_eq fun _ _ hq => (hf hq).2⟩

theorem visitOwn_left (h : AlikeAt millis o o') (hf : QueueRecord.HarmlessAt millis f) :
    AlikeAt millis (o.visitOwn f).1 o' := by
  obtain ⟨own, rfl, hown⟩ := h
  rw [visitOwn_fst]
  exact ⟨own, rfl, hown.map_left fun _ _ hq => hf hq⟩

theorem ofSizes_eq (h : AlikeAt millis o o') : Outcome.ofSizes o = Outcome.ofSizes o' := by
  obtain ⟨own, rfl, -⟩ := h
  rfl

/-- What an observer is told is passed on in the same words. -/
theorem follow_snd (h : AlikeAt millis o o') (now : Duration) (c : ItemChange) (key : Nat) :
    (o.follow now c key).2 = (o'.follow now c key).2 := by
  obtain ⟨own, rfl, -⟩ := h
  cases c <;> rfl

theorem told {now : Duration} (h : AlikeAt now.counterMillis o o') (c : ItemChange) (key : Nat) :
    AlikeAt now.counterMillis (o.told now c key) (o'.told now c key) := by
  have hfact := h.follow_snd now c key
  obtain ⟨own, rfl, hown⟩ := h
  rw [told_eq, told_eq, ← hfact]
  exact ⟨_, rfl, hown.map fun _ _ hq => (QueueRecord.blindAt_note now _ hq).1⟩

end AlikeAt

end Observer

namespace Monitor

structure AlikeAt (millis : Nat) (m m' : Monitor) : Prop where
  registry : m.registry.AlikeAt millis m'.registry
  observers : List.Forall₂ (Observer.AlikeAt millis) m.observers m'.observers

theorem alikeAt_ofSettings {s : Settings} {m : Monitor} (h : ofSettings s = .ok m) (millis : Nat) :
    AlikeAt millis m m := by
  obtain ⟨r, hr, h⟩ := SetupError.bind_eq_ok_iff.mp h
  obtain ⟨-, -, hr⟩ := SetupError.bind_eq_ok_iff.mp hr
  cases hr
  cases h
  exact ⟨⟨[], rfl, .nil⟩, .nil⟩

theorem alikeAt_newOwn {s : Settings} {capacity : UInt64} {own : Option QueueRecord}
    (h : newOwn s capacity = .ok own) (millis : Nat) :
    Option.Rel (QueueRecord.AlikeAt millis) own own := by
  rw [newOwn] at h
  split at h
  · obtain ⟨q, hq, h⟩ := SetupError.bind_eq_ok_iff.mp h
    cases h
    exact .some (QueueRecord.alikeAt_newRecord hq millis)
  · cases h
    exact .none

namespace AlikeAt

variable {α : Type} {millis later : Nat} {now : Duration} {m m' : Monitor}
  {f : QueueRecord → QueueRecord × α}

theorem mono (h : AlikeAt millis m m') (hle : millis ≤ later) : AlikeAt later m m' :=
  ⟨h.registry.mono hle, h.observers.imp fun _ _ ho => ho.mono hle⟩

theorem visitOwn (h : AlikeAt millis m m') (hf : QueueRecord.BlindAt millis f) (i : Nat) :
    AlikeAt millis (m.visitOwn i f).1 (m'.visitOwn i f).1 ∧
      (m.visitOwn i f).2 = (m'.visitOwn i f).2 := by
  rw [visitOwn_eq, visitOwn_eq]
  refine ⟨⟨h.registry, h.observers.modify i ?_⟩, (h.observers.getElem? i).bind_eq ?_⟩
  · exact fun _ _ ho => (ho.visitOwn hf).1
  · exact fun _ _ ho => (ho.visitOwn hf).2

theorem visitOwn_left (h : AlikeAt millis m m') (hf : QueueRecord.HarmlessAt millis f) (i : Nat) :
    AlikeAt millis (m.visitOwn i f).1 m' := by
  rw [visitOwn_eq]
  exact ⟨h.registry, h.observers.modify_left i fun _ _ ho => ho.visitOwn_left hf⟩

theorem change (h : AlikeAt now.counterMillis m m') (i : Nat) (c : ItemChange) (key : Nat) :
    AlikeAt now.counterMillis (m.change i now c key).1 (m'.change i now c key).1 ∧
      (m.change i now c key).2 = (m'.change i now c key).2 := by
  have hobserver := h.observers.getElem? i
  cases hi : m.observers[i]? with
  | none =>
      have hi' := (hi ▸ hobserver).eq_none
      simp only [Monitor.change, visitObserver, hi, hi']
      exact ⟨h, trivial⟩
  | some o =>
      obtain ⟨o', hi', ho⟩ := (hi ▸ hobserver).exists_some
      -- The observers pass on the same fact, to alike records of their own and to alike shared ones.
      rw [change_eq hi, change_eq hi', change_snd hi, change_snd hi', ho.follow_snd now c key]
      have hnote := QueueRecord.blindAt_note now (o'.follow now c key).2
      have hshared := h.registry.visit (fun _ => hnote) o.shared
      have htold := h.observers.set i (ho.told c key)
      obtain ⟨own, rfl, hown⟩ := ho
      refine ⟨⟨hshared.1, htold⟩, ?_⟩
      rw [hown.map_eq fun _ _ hq => (hnote hq).2, hshared.2]

theorem observe (h : AlikeAt millis m m') (queueId : String) (capacity : UInt64) :
    AlikeAt millis (m.observe queueId capacity).1 (m'.observe queueId capacity).1 ∧
      (m.observe queueId capacity).2 = (m'.observe queueId capacity).2 := by
  obtain ⟨hregistry, hfound⟩ := h.registry.recordFor queueId capacity
  simp only [Monitor.observe]
  generalize m.registry.recordFor queueId capacity = found at hregistry hfound
  generalize m'.registry.recordFor queueId capacity = found' at hregistry hfound
  obtain ⟨r, events, answer⟩ := found
  obtain ⟨r', events', answer'⟩ := found'
  -- Both have found or made the shared record under one number, or neither has.
  cases hfound
  cases answer with
  | error e => exact ⟨⟨hregistry, h.observers⟩, rfl⟩
  | ok shared =>
      have hsettings : r.settings = r'.settings := hregistry.settings_eq
      simp only [hsettings]
      cases hown : newOwn r'.settings capacity with
      | error e => exact ⟨⟨hregistry, h.observers⟩, rfl⟩
      | ok own =>
          refine ⟨⟨hregistry, ?_⟩, by rw [h.observers.length_eq]⟩
          exact List.rel_append h.observers (.cons ⟨own, rfl, alikeAt_newOwn hown millis⟩ .nil)

end AlikeAt

end Monitor

/-! ## Sessions -/

namespace Clock

/-- A clock that counts nanoseconds in 64 bits.  Its milliseconds stay far below the last value of
their counter. -/
structure CountsNanos (c : Clock) : Prop where
  horizon_le : c.horizon.nanos ≤ maxWord
  now_le : c.now.nanos ≤ c.horizon.nanos

theorem countsNanos_startingAt (start : Duration) : (startingAt start).CountsNanos := by
  refine ⟨Nat.min_le_left _ _, ?_⟩
  rw [startingAt, nanos_setTime]
  exact Nat.min_le_right _ _

theorem CountsNanos.elapse {c : Clock} (h : c.CountsNanos) (d : Duration) :
    (c.elapse d).CountsNanos := by
  refine ⟨h.horizon_le, ?_⟩
  rw [nanos_elapse]
  exact Nat.min_le_right _ _

theorem CountsNanos.nowMillis_eq {c : Clock} (h : c.CountsNanos) :
    c.nowMillis = c.now.nanos / nanosPerMilli := by
  have hnow := h.now_le.trans h.horizon_le
  have hlt : c.now.millis < wordCount := by
    simp only [Duration.millis, nanosPerMilli, wordCount, maxWord] at *
    omega
  exact Nat.mod_eq_of_lt hlt

/-- The time does not go back. -/
theorem CountsNanos.nowMillis_le_elapse {c : Clock} (h : c.CountsNanos) (d : Duration) :
    c.nowMillis ≤ (c.elapse d).nowMillis := by
  rw [h.nowMillis_eq, (h.elapse d).nowMillis_eq, nanos_elapse]
  have hnow := h.now_le
  exact Nat.div_le_div_right (by omega)

end Clock

namespace Session

/-- Two sessions are alike if they show the same time and their monitors are alike at it. -/
structure Alike (s s' : Session) : Prop where
  clock_eq : s.clock = s'.clock
  clock : s.clock.CountsNanos
  monitor : s.monitor.AlikeAt s.clock.nowMillis s'.monitor

namespace Alike

variable {s s' : Session}

theorem perform (h : s.Alike s') (op : Op) :
    (s.perform op).1.Alike (s'.perform op).1 ∧ (s.perform op).2 = (s'.perform op).2 := by
  obtain ⟨clock, m⟩ := s
  obtain ⟨clock', m'⟩ := s'
  obtain ⟨rfl, hclock, hm⟩ := h
  cases op with
  | elapse d => exact ⟨⟨rfl, hclock.elapse d, hm.mono (hclock.nowMillis_le_elapse d)⟩, rfl⟩
  | lookUp queueId capacity =>
      obtain ⟨hregistry, hfound⟩ := hm.registry.recordFor queueId capacity
      exact ⟨⟨rfl, hclock, hregistry, hm.observers⟩, congrArg Outcome.ofSetup hfound⟩
  | observe queueId capacity =>
      obtain ⟨hmonitor, hmade⟩ := hm.observe queueId capacity
      exact ⟨⟨rfl, hclock, hmonitor⟩, congrArg Outcome.ofSetup hmade⟩
  | change i c key =>
      obtain ⟨hmonitor, hevents⟩ := hm.change i c key
      exact ⟨⟨rfl, hclock, hmonitor⟩, congrArg (Outcome.mk .nothing) hevents⟩
  | sizes i =>
      have hsizes := (hm.observers.getElem? i).map_eq fun _ _ ho => ho.ofSizes_eq
      exact ⟨⟨rfl, hclock, hm⟩, congrArg (·.getD .silent) hsizes⟩
  | readShared record reading =>
      obtain ⟨hregistry, houtcome⟩ :=
        hm.registry.visit (fun _ => QueueRecord.blindAt_read clock.now reading) record
      exact ⟨⟨rfl, hclock, hregistry, hm.observers⟩, congrArg (·.getD .silent) houtcome⟩
  | readOwn i reading =>
      obtain ⟨hmonitor, houtcome⟩ := hm.visitOwn (QueueRecord.blindAt_read clock.now reading) i
      exact ⟨⟨rfl, hclock, hmonitor⟩, congrArg (·.getD .silent) houtcome⟩
  | readAll =>
      obtain ⟨hregistry, hfigures⟩ := hm.registry.toJson clock.now
      exact ⟨⟨rfl, hclock, hregistry, hm.observers⟩,
        congrArg (fun j : Json => Outcome.mk (.json j) []) hfigures⟩
  | logAll =>
      obtain ⟨hregistry, hevents⟩ := hm.registry.log clock.now
      exact ⟨⟨rfl, hclock, hregistry, hm.observers⟩, congrArg (Outcome.mk .nothing) hevents⟩

theorem perform_read (h : s.Alike s') {op : Op} (hop : op.isRead = true) :
    (s.perform op).1.Alike s' := by
  obtain ⟨clock, m⟩ := s
  obtain ⟨clock', m'⟩ := s'
  obtain ⟨rfl, hclock, hm⟩ := h
  cases op with
  | elapse _ | lookUp _ _ | observe _ _ | change _ _ _ => cases hop
  | sizes i => exact ⟨rfl, hclock, hm⟩
  | readShared record reading =>
      have hregistry :=
        hm.registry.visit_left (fun _ => QueueRecord.harmlessAt_read clock.now reading) record
      exact ⟨rfl, hclock, hregistry, hm.observers⟩
  | readOwn i reading =>
      have hmonitor := hm.visitOwn_left (QueueRecord.harmlessAt_read clock.now reading) i
      exact ⟨rfl, hclock, hmonitor⟩
  | readAll => exact ⟨rfl, hclock, hm.registry.toJson_left clock.now, hm.observers⟩
  | logAll => exact ⟨rfl, hclock, hm.registry.log_left clock.now, hm.observers⟩

end Alike

/-- The entries of a list that are marked. -/
def kept {α : Type} (marks : List Bool) (l : List α) : List α :=
  ((marks.zip l).filter (·.1)).map (·.2)

/-- If what is not marked only reads, then the marked operations have the same outcomes without the
others, also on a session that is merely alike. -/
theorem Alike.outcomes_kept {s s' : Session} (h : s.Alike s') {marks : List Bool} {ops : List Op}
    (hlength : marks.length = ops.length)
    (hreads : ∀ e ∈ marks.zip ops, e.1 = false → e.2.isRead = true) :
    s'.outcomes (kept marks ops) = kept marks (s.outcomes ops) := by
  induction ops generalizing s s' marks with
  | nil =>
      rw [List.length_eq_zero_iff.mp hlength]
      rfl
  | cons op rest ih =>
      cases marks with
      | nil => cases hlength
      | cons mark marks =>
          have hmarks : marks.length = rest.length := Nat.succ.inj hlength
          have hrest : ∀ e ∈ marks.zip rest, e.1 = false → e.2.isRead = true :=
            fun e he => hreads e (List.mem_cons_of_mem _ he)
          cases mark with
          -- What stays is done on both sides, what is left out on one side only.
          | true =>
              obtain ⟨hstate, houtcome⟩ := h.perform op
              exact congrArg₂ List.cons houtcome.symm (ih hstate hmarks hrest)
          | false =>
              have hop : op.isRead = true := hreads (false, op) List.mem_cons_self rfl
              exact ih (h.perform_read hop) hmarks hrest

/-- Readings can be left out of any session of a new monitor on a clock that only moves forward: the
outcomes of the other operations stay the same, what they show as well as the events they leave. -/
theorem reads_unseen {settings : Settings} {m : Monitor} (hm : Monitor.ofSettings settings = .ok m)
    (start : Duration) {marks : List Bool} {ops : List Op} (hlength : marks.length = ops.length)
    (hreads : ∀ e ∈ marks.zip ops, e.1 = false → e.2.isRead = true) :
    (Session.mk (.startingAt start) m).outcomes (kept marks ops) =
      kept marks ((Session.mk (.startingAt start) m).outcomes ops) := by
  have hsame : (Session.mk (.startingAt start) m).Alike (Session.mk (.startingAt start) m) :=
    ⟨rfl, Clock.countsNanos_startingAt start, Monitor.alikeAt_ofSettings hm _⟩
  exact hsame.outcomes_kept hlength hreads

/-- Figures are read while an item is in the queue and again after it has left the window of the
rates. -/
def watched : List Op :=
  [.observe "work" 8, .change 0 .added 1, .readShared 0 .report, .elapse (.ofSeconds 7), .readAll,
    .change 0 .removed 1, .logAll, .readShared 0 .json]

/-- All of these but three readings. -/
def lessWatched : List Bool := [true, true, false, true, false, true, false, true]

theorem reads_unseen_watched :
    Monitor.ofSettings .standard = .ok ⟨⟨.standard, []⟩, []⟩ ∧
      lessWatched.length = watched.length ∧
      (∀ e ∈ lessWatched.zip watched, e.1 = false → e.2.isRead = true) ∧
      (Session.mk (.startingAt .zero) ⟨⟨.standard, []⟩, []⟩).outcomes (kept lessWatched watched) =
        kept lessWatched
          ((Session.mk (.startingAt .zero) ⟨⟨.standard, []⟩, []⟩).outcomes watched) := by
  have hmade : Monitor.ofSettings .standard = .ok ⟨⟨.standard, []⟩, []⟩ := rfl
  have hreads : ∀ e ∈ lessWatched.zip watched, e.1 = false → e.2.isRead = true := by decide
  exact ⟨hmade, rfl, hreads, reads_unseen hmade .zero rfl hreads⟩

end Session

end WindowedStats
