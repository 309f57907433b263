import Mathlib.Data.Option.Basic
import WindowedStats.Proofs.RecordNotes

/-!
# Records that cannot be told apart

Reading the figures of a record moves the windows of its rates forward, so a record that was read is
not the record that it was.  But the windows move forward at the next reading or update anyway, and
as long as time does not go back, what a window leaves behind early it would have left behind by
then.  Two records are alike at a time if they differ only in how far such windows have moved, and
not beyond that time.

From there on nothing tells alike records apart: they take note of the same facts, stay alike, and
show the same figures, and reading one of them and not the other leaves them alike.  The reason is
`TickRing.AlikeAt.total_eq`: two windows that keep the same counts and are moved to the same tick
have the same total, whatever their slots and indices are.
-/

namespace Option.Rel

variable {α β γ δ : Type} {R : α → β → Prop} {S : γ → δ → Prop} {x : Option α} {y : Option β}

theorem eq_none (h : Option.Rel R .none y) : y = .none := by
  cases h
  rfl

theorem exists_some {a : α} (h : Option.Rel R (.some a) y) : ∃ b, y = .some b ∧ R a b := by
  cases h with
  | some hab => exact ⟨_, rfl, hab⟩

theorem map (h : Option.Rel R x y) {f : α → γ} {g : β → δ} (hfg : ∀ a b, R a b → S (f a) (g b)) :
    Option.Rel S (x.map f) (y.map g) := by
  cases h with
  | none => exact .none
  | some hab => exact .some (hfg _ _ hab)

theorem map_left (h : Option.Rel R x y) {f : α → γ} {T : γ → β → Prop}
    (hf : ∀ a b, R a b → T (f a) b) : Option.Rel T (x.map f) y := by
  cases h with
  | none => exact .none
  | some hab => exact .some (hf _ _ hab)

theorem mono (h : Option.Rel R x y) {T : α → β → Prop} (hT : ∀ a b, R a b → T a b) :
    Option.Rel T x y := by
  cases h with
  | none => exact .none
  | some hab => exact .some (hT _ _ hab)

theorem map_eq (h : Option.Rel R x y) {f : α → γ} {g : β → γ} (hfg : ∀ a b, R a b → f a = g b) :
    x.map f = y.map g := by
  cases h with
  | none => rfl
  | some hab => exact congrArg Option.some (hfg _ _ hab)

theorem bind_eq (h : Option.Rel R x y) {f : α → Option γ} {g : β → Option γ}
    (hfg : ∀ a b, R a b → f a = g b) : x.bind f = y.bind g := by
  cases h with
  | none => rfl
  | some hab => exact hfg _ _ hab

end Option.Rel

namespace WindowedStats

open QueueRecord (Fact)

/-! ## Windows -/

namespace TickRing

/-- At the tick `now`, two rings keep the same counts, over windows of one length that have not been
moved further than to end there. -/
structure AlikeAt (now : Nat) (r r' : TickRing) : Prop where
  span_eq : r.span = r'.span
  counts : ∃ f, r.Holds f ∧ r'.Holds f
  left_le : r.oldestTick ≤ now - r.span
  right_le : r'.oldestTick ≤ now - r'.span

theorem alikeAt_empty (now span : Nat) : AlikeAt now (empty span) (empty span) :=
  ⟨rfl, ⟨_, holds_empty span, holds_empty span⟩, Nat.zero_le _, Nat.zero_le _⟩

namespace AlikeAt

variable {now later : Nat} {r r' : TickRing}

theorem symm (h : AlikeAt now r r') : AlikeAt now r' r := by
  obtain ⟨f, hf, hf'⟩ := h.counts
  exact ⟨h.span_eq.symm, ⟨f, hf', hf⟩, h.right_le, h.left_le⟩

theorem mono (h : AlikeAt now r r') (hle : now ≤ later) : AlikeAt later r r' where
  span_eq := h.span_eq
  counts := h.counts
  left_le := h.left_le.trans (Nat.sub_le_sub_right hle _)
  right_le := h.right_le.trans (Nat.sub_le_sub_right hle _)

theorem oldestTick_advance (h : AlikeAt now r r') : (r.advance now).oldestTick = now - r.span := by
  rw [TickRing.oldestTick_advance, Nat.max_eq_right h.left_le]

/-- One window may be moved without the other. -/
theorem advance_left (h : AlikeAt now r r') : AlikeAt now (r.advance now) r' := by
  obtain ⟨f, hf, hf'⟩ := h.counts
  refine ⟨(span_advance r now).trans h.span_eq, ⟨f, hf.advance now, hf'⟩, ?_, h.right_le⟩
  rw [h.oldestTick_advance, span_advance]

theorem advance (h : AlikeAt now r r') : AlikeAt now (r.advance now) (r'.advance now) :=
  h.advance_left.symm.advance_left.symm

/-- Moved to the same tick, the windows have the same total. -/
theorem total_eq (h : AlikeAt now r r') : (r.advance now).total = (r'.advance now).total := by
  obtain ⟨f, hf, hf'⟩ := h.counts
  rw [(hf.advance now).total_eq, (hf'.advance now).total_eq, h.oldestTick_advance,
    h.symm.oldestTick_advance, size, size, span_advance, span_advance, h.span_eq]

theorem oldestTick_le (h : AlikeAt now r r') : r.oldestTick ≤ now := h.left_le.trans (Nat.sub_le _ _)

theorem add (h : AlikeAt now r r') (count : Nat) :
    AlikeAt now ((r.advance now).bump count now) ((r'.advance now).bump count now) := by
  obtain ⟨f, hf, hf'⟩ := h.counts
  have hmoved := h.advance
  exact ⟨hmoved.span_eq, ⟨_, hf.add count h.oldestTick_le, hf'.add count h.symm.oldestTick_le⟩,
    hmoved.left_le, hmoved.right_le⟩

end AlikeAt

end TickRing

/-! ## Rates -/

namespace RateTracker

/-- Two trackers are alike if only their rings differ, and these are alike. -/
def AlikeAt (millis : Nat) (t t' : RateTracker) : Prop :=
  ∃ ring, t' = { t with ring := ring } ∧ t.ring.AlikeAt (millis / t.tickMillis) ring

theorem alikeAt_ofWindow {window tick : Duration} {t : RateTracker} (h : ofWindow window tick = .ok t)
    (millis : Nat) : AlikeAt millis t t := by
  obtain ⟨hring, -⟩ := ofTicks_eq_ok (ofWindow_eq_ok h)
  refine ⟨t.ring, rfl, ?_⟩
  rw [hring]
  exact TickRing.alikeAt_empty _ _

namespace AlikeAt

variable {millis later : Nat} {t t' : RateTracker}

theorem mono (h : AlikeAt millis t t') (hle : millis ≤ later) : AlikeAt later t t' := by
  obtain ⟨ring, rfl, hring⟩ := h
  exact ⟨ring, rfl, hring.mono (Nat.div_le_div_right hle)⟩

theorem advance_left (h : AlikeAt millis t t') : AlikeAt millis (t.advance millis) t' := by
  obtain ⟨ring, rfl, hring⟩ := h
  exact ⟨ring, rfl, hring.advance_left⟩

theorem advance (h : AlikeAt millis t t') :
    AlikeAt millis (t.advance millis) (t'.advance millis) := by
  obtain ⟨ring, rfl, hring⟩ := h
  exact ⟨_, rfl, hring.advance⟩

theorem scaledRate_eq (h : AlikeAt millis t t') (scale : Float) :
    (t.advance millis).scaledRate scale = (t'.advance millis).scaledRate scale := by
  obtain ⟨ring, rfl, hring⟩ := h
  simp only [scaledRate, total, RateTracker.advance, hring.total_eq]

/-- Alike trackers stay alike, and the update is not late for any of them. -/
theorem update (h : AlikeAt millis t t') (count : Nat) :
    AlikeAt millis (t.update count millis).1 (t'.update count millis).1 ∧
      (t.update count millis).2 = none ∧ (t'.update count millis).2 = none := by
  obtain ⟨ring, rfl, hring⟩ := h
  rw [update_of_le hring.oldestTick_le, update_of_le hring.symm.oldestTick_le]
  exact ⟨⟨_, rfl, hring.add count⟩, rfl, rfl⟩

end AlikeAt

end RateTracker

namespace ScaledRate

def AlikeAt (millis : Nat) (r r' : ScaledRate) : Prop :=
  ∃ tracker, r' = { r with tracker := tracker } ∧ r.tracker.AlikeAt millis tracker

namespace AlikeAt

variable {millis later : Nat} {r r' : ScaledRate}

theorem mono (h : AlikeAt millis r r') (hle : millis ≤ later) : AlikeAt later r r' := by
  obtain ⟨tracker, rfl, htracker⟩ := h
  exact ⟨tracker, rfl, htracker.mono hle⟩

theorem rateAt_left (h : AlikeAt millis r r') : AlikeAt millis (r.rateAt millis).1 r' := by
  obtain ⟨tracker, rfl, htracker⟩ := h
  exact ⟨tracker, rfl, htracker.advance_left⟩

theorem rateAt (h : AlikeAt millis r r') :
    AlikeAt millis (r.rateAt millis).1 (r'.rateAt millis).1 ∧
      (r.rateAt millis).2 = (r'.rateAt millis).2 := by
  obtain ⟨tracker, rfl, htracker⟩ := h
  exact ⟨⟨_, rfl, htracker.advance⟩, htracker.scaledRate_eq r.scale⟩

theorem update (h : AlikeAt millis r r') (count : Nat) :
    AlikeAt millis (r.update count millis).1 (r'.update count millis).1 ∧
      (r.update count millis).2 = none ∧ (r'.update count millis).2 = none := by
  obtain ⟨tracker, rfl, htracker⟩ := h
  exact ⟨⟨_, rfl, (htracker.update count).1⟩, (htracker.update count).2⟩

end AlikeAt

end ScaledRate

namespace QueueRates

structure AlikeAt (millis : Nat) (r r' : QueueRates) : Prop where
  add : r.add.AlikeAt millis r'.add
  remove : r.remove.AlikeAt millis r'.remove
  drop : r.drop.AlikeAt millis r'.drop

namespace AlikeAt

variable {millis later : Nat} {r r' : QueueRates}

theorem mono (h : AlikeAt millis r r') (hle : millis ≤ later) : AlikeAt later r r' :=
  ⟨h.add.mono hle, h.remove.mono hle, h.drop.mono hle⟩

theorem read_left (h : AlikeAt millis r r') :
    AlikeAt millis (QueueRecord.readRates millis r).1 r' :=
  ⟨h.add.rateAt_left, h.remove.rateAt_left, h.drop.rateAt_left⟩

theorem read (h : AlikeAt millis r r') :
    AlikeAt millis (QueueRecord.readRates millis r).1 (QueueRecord.readRates millis r').1 ∧
      (QueueRecord.readRates millis r).2 = (QueueRecord.readRates millis r').2 := by
  refine ⟨⟨h.add.rateAt.1, h.remove.rateAt.1, h.drop.rateAt.1⟩, ?_⟩
  exact congrArg₂ Prod.mk h.add.rateAt.2 (congrArg₂ Prod.mk h.remove.rateAt.2 h.drop.rateAt.2)

theorem count (h : AlikeAt millis r r') (fact : Fact) :
    AlikeAt millis (r.count fact millis) (r'.count fact millis) ∧
      r.late fact millis = none ∧ r'.late fact millis = none := by
  cases fact with
  | addition => exact ⟨{ h with add := (h.add.update 1).1 }, (h.add.update 1).2⟩
  | removal size wait => exact ⟨{ h with remove := (h.remove.update 1).1 }, (h.remove.update 1).2⟩
  | drop => exact ⟨{ h with drop := (h.drop.update 1).1 }, (h.drop.update 1).2⟩

end AlikeAt

end QueueRates

/-! ## Records -/

namespace QueueRecord

/-- Two records are alike if only their rates differ, and these are alike. -/
def AlikeAt (millis : Nat) (q q' : QueueRecord) : Prop :=
  ∃ rates, q' = { q with rates := rates } ∧ Option.Rel (QueueRates.AlikeAt millis) q.rates rates

theorem alikeAt_newRecord {s : Settings} {capacity : UInt64} {q : QueueRecord}
    (h : s.newRecord capacity = .ok q) (millis : Nat) : AlikeAt millis q q := by
  obtain ⟨rates, hrates, h⟩ := SetupError.bind_eq_ok_iff.mp h
  obtain ⟨waitTime, -, h⟩ := SetupError.bind_eq_ok_iff.mp h
  obtain ⟨sizes, -, h⟩ := SetupError.bind_eq_ok_iff.mp h
  cases h
  refine ⟨rates, rfl, ?_⟩
  rw [Settings.newRates] at hrates
  split at hrates
  · obtain ⟨rate, hrate, hrates⟩ := SetupError.bind_eq_ok_iff.mp hrates
    obtain ⟨tracker, htracker, hrate⟩ := SetupError.bind_eq_ok_iff.mp hrate
    cases hrate
    cases hrates
    have halike := RateTracker.alikeAt_ofWindow htracker millis
    exact .some ⟨⟨_, rfl, halike⟩, ⟨_, rfl, halike⟩, ⟨_, rfl, halike⟩⟩
  · cases hrates
    exact .none

theorem AlikeAt.mono {millis later : Nat} {q q' : QueueRecord} (h : AlikeAt millis q q')
    (hle : millis ≤ later) : AlikeAt later q q' := by
  obtain ⟨rates, rfl, hrates⟩ := h
  exact ⟨rates, rfl, hrates.mono fun _ _ hr => hr.mono hle⟩

/-- An operation is blind at a time if it treats records that are alike then alike. -/
def BlindAt {α : Type} (millis : Nat) (f : QueueRecord → QueueRecord × α) : Prop :=
  ∀ ⦃q q'⦄, AlikeAt millis q q' → AlikeAt millis (f q).1 (f q').1 ∧ (f q).2 = (f q').2

/-- An operation is harmless at a time if alike records stay alike when it is used on one. -/
def HarmlessAt {α : Type} (millis : Nat) (f : QueueRecord → QueueRecord × α) : Prop :=
  ∀ ⦃q q'⦄, AlikeAt millis q q' → AlikeAt millis (f q).1 q'

theorem blindAt_note (now : Duration) (fact : Fact) :
    BlindAt now.counterMillis (·.note now fact) := by
  rintro q q' ⟨rates, rfl, hrates⟩
  refine ⟨⟨rates.map (·.count fact now.counterMillis), ?_, ?_⟩, ?_⟩
  · simp only [note_fst, tallied_rates q now fact rates]
  · simp only [note_fst]
    exact hrates.map fun _ _ hr => (hr.count fact).1
  · simp only [note_snd]
    exact congrArg lateEvents <| hrates.bind_eq fun _ _ hr =>
      (hr.count fact).2.1.trans (hr.count fact).2.2.symm

theorem blindAt_report (now : Duration) : BlindAt now.counterMillis (·.report now) := by
  rintro q q' ⟨rates, rfl, hrates⟩
  let Read : QueueRates × Nat × Nat × Nat → QueueRates × Nat × Nat × Nat → Prop :=
    fun a b => QueueRates.AlikeAt now.counterMillis a.1 b.1 ∧ a.2 = b.2
  have hread : Option.Rel Read (q.rates.map (readRates now.counterMillis))
      (rates.map (readRates now.counterMillis)) := hrates.map fun _ _ hr => hr.read
  refine ⟨⟨_, rfl, hread.map fun _ _ hr => hr.1⟩, ?_⟩
  have hadd := hread.map_eq fun _ _ hr => congrArg Prod.fst hr.2
  have hremove := hread.map_eq fun _ _ hr => congrArg (·.2.1) hr.2
  have hdrop := hread.map_eq fun _ _ hr => congrArg (·.2.2) hr.2
  simp only [report, hadd, hremove, hdrop]

theorem harmlessAt_report (now : Duration) : HarmlessAt now.counterMillis (·.report now) := by
  rintro q q' ⟨rates, rfl, hrates⟩
  refine ⟨rates, rfl, ?_⟩
  show Option.Rel _ ((q.rates.map (readRates now.counterMillis)).map (·.1)) rates
  rw [Option.map_map]
  exact hrates.map_left fun _ _ hr => hr.read_left

end QueueRecord

end WindowedStats
