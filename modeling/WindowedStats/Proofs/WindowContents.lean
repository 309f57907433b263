import Mathlib.Data.List.Induction
import WindowedStats.Window.Sliding

/-!
# What a sliding window holds

The plainest account of a sliding window is the list of all values that were added since it was last
cleared, with their instants.  Of these the window holds those whose age does not exceed its length,
and it has reported the others.

The window itself looks at its oldest entry only, and only when something is added or an eviction is
forced.  On a clock that never goes back neither shows.  The entries are in order of their instants,
so the stale ones come first; and what was stale at some eviction is stale ever after.  These two
facts make up `Watched.Keeps`, which every operation preserves.  `holds_exactly_fresh` is what
remains of it right after an addition or a forced eviction.
-/

namespace WindowedStats

namespace SlidingWindow

variable {α : Type}

inductive Op (α : Type) where
  | add (v : α)
  | evict
  | clear

def Op.isEvict : Op α → Bool
  | evict => true
  | _ => false

/-- Operations in order, each with the instant that the clock shows at it. -/
abbrev Run (α : Type) := List (Duration × Op α)

/-- A window with the values that it has reported since it was last cleared. -/
structure Watched (α : Type) where
  window : SlidingWindow α
  reported : List α

namespace Watched

def perform (w : Watched α) (now : Duration) : Op α → Watched α
  | .add v => ⟨(w.window.add now v).1, w.reported ++ (w.window.add now v).2⟩
  | .evict => ⟨(w.window.evict now).1, w.reported ++ (w.window.evict now).2⟩
  | .clear => ⟨w.window.clear, []⟩

end Watched

namespace Run

/-- The window of a length after a run. -/
def result (length : Duration) (run : Run α) : Watched α :=
  run.foldl (fun w e => w.perform e.1 e.2) ⟨.empty length, []⟩

/-- The clock never goes back during the run. -/
def Forward (run : Run α) : Prop := run.Pairwise fun e e' => e.1 ≤ e'.1

instance (run : Run α) : Decidable run.Forward :=
  inferInstanceAs (Decidable (run.Pairwise fun e e' => e.1 ≤ e'.1))

/-- What an operation at an instant makes of the values added so far. -/
def note (added : List (Timed α)) (now : Duration) : Op α → List (Timed α)
  | .add v => added ++ [⟨v, now⟩]
  | .evict => added
  | .clear => []

/-- The values added since the last clear, oldest first, with their instants. -/
def added (run : Run α) : List (Timed α) := run.foldl (fun added e => note added e.1 e.2) []

def withoutEvictions (run : Run α) : Run α := run.filter fun e => !e.2.isEvict

end Run

/-! ## Stale entries come first -/

/-- If whatever stands before an entry that may go may go too, then cutting off the front sorts the
entries that may go from the others. -/
theorem cut_eq_filter {p : α → Bool} {l : List α}
    (hl : l.Pairwise fun a b => p b = true → p a = true) :
    l.takeWhile p = l.filter p ∧ l.dropWhile p = l.filter fun a => !p a := by
  induction l with
  | nil => exact ⟨rfl, rfl⟩
  | cons a rest ih =>
      obtain ⟨hbefore, hrest⟩ := List.pairwise_cons.mp hl
      cases ha : p a with
      | true =>
          obtain ⟨htake, hdrop⟩ := ih hrest
          constructor
          · rw [List.takeWhile_cons_of_pos ha, List.filter_cons_of_pos ha, htake]
          · rw [List.dropWhile_cons_of_pos ha, List.filter_cons_of_neg (by simp [ha]), hdrop]
      | false =>
          have hnone : ∀ b ∈ rest, p b = false := by
            intro b hb
            cases hpb : p b with
            | true => exact absurd (hbefore b hb hpb) (by simp [ha])
            | false => rfl
          have hneg : ¬ p a = true := by simp [ha]
          constructor
          · rw [List.takeWhile_cons_of_neg hneg, List.filter_cons_of_neg hneg]
            exact (List.filter_eq_nil_iff.mpr fun b hb => by simp [hnone b hb]).symm
          · rw [List.dropWhile_cons_of_neg hneg]
            refine (List.filter_eq_self.mpr ?_).symm
            intro b hb
            rcases List.mem_cons.mp hb with rfl | hb
            · simp [ha]
            · simp [hnone b hb]

theorem isStale_iff {length now : Duration} {t : Timed α} :
    isStale length now t = true ↔ length < now - t.addedAt := decide_eq_true_iff

theorem not_isStale_iff {length now : Duration} {t : Timed α} :
    (!isStale length now t) = true ↔ now - t.addedAt ≤ length := by
  rw [Bool.not_eq_true', ← Bool.not_eq_true, isStale_iff]
  exact Nat.not_lt

/-- A value grows no younger, and one that was added before a stale one is stale. -/
theorem isStale_mono {length now later : Duration} {s t : Timed α} (hnow : now ≤ later)
    (hadded : s.addedAt ≤ t.addedAt) (ht : isStale length now t = true) :
    isStale length later s = true := by
  rw [isStale_iff, Duration.lt_def, Duration.nanos_sub] at ht ⊢
  rw [Duration.le_def] at hnow hadded
  omega

theorem cut_stale {l : List (Timed α)} (hl : l.Pairwise fun s t => s.addedAt ≤ t.addedAt)
    (length now : Duration) :
    l.takeWhile (isStale length now) = l.filter (isStale length now) ∧
      l.dropWhile (isStale length now) = l.filter fun t => !isStale length now t :=
  cut_eq_filter (hl.imp fun hst => isStale_mono (Nat.le_refl _) hst)

/-! ## What every operation preserves -/

namespace Watched

/-- Of the values added, those that the window no longer holds come first, have been reported and
are stale.  The instants ascend and none of them is still to come. -/
structure Keeps (w : Watched α) (now : Duration) (added : List (Timed α)) : Prop where
  split : ∃ gone, added = gone ++ w.window.entries ∧ w.reported = gone.map Timed.value ∧
    ∀ t ∈ gone, isStale w.window.length now t = true
  ordered : added.Pairwise fun s t => s.addedAt ≤ t.addedAt
  past : ∀ t ∈ added, t.addedAt ≤ now

/-- The window holds what is fresh and has reported what is stale. -/
structure Sorts (w : Watched α) (now : Duration) (added : List (Timed α)) : Prop where
  held : w.window.entries = added.filter fun t => !isStale w.window.length now t
  reported : w.reported = (added.filter (isStale w.window.length now)).map Timed.value

variable {w : Watched α} {now : Duration} {added : List (Timed α)}

theorem keeps_empty (length now : Duration) :
    Keeps (⟨.empty length, []⟩ : Watched α) now [] where
  split := ⟨[], rfl, rfl, fun _ ht => absurd ht List.not_mem_nil⟩
  ordered := List.Pairwise.nil
  past := fun _ ht => absurd ht List.not_mem_nil

theorem Keeps.later (h : w.Keeps now added) {next : Duration} (hnow : now ≤ next) :
    w.Keeps next added := by
  obtain ⟨gone, hsplit, hreported, hgone⟩ := h.split
  refine ⟨⟨gone, hsplit, hreported, ?_⟩, h.ordered, ?_⟩
  · intro t ht
    exact isStale_mono hnow (Nat.le_refl _) (hgone t ht)
  · intro t ht
    exact Nat.le_trans (h.past t ht) hnow

theorem Keeps.sorts_evict (h : w.Keeps now added) : (w.perform now .evict).Sorts now added := by
  obtain ⟨gone, rfl, hreported, hgone⟩ := h.split
  have hentries : w.window.entries.Pairwise fun s t => s.addedAt ≤ t.addedAt :=
    (List.pairwise_append.mp h.ordered).2.1
  obtain ⟨htake, hdrop⟩ := cut_stale hentries w.window.length now
  constructor
  · have hnone : (gone.filter fun t => !isStale w.window.length now t) = [] := by
      rw [List.filter_eq_nil_iff]
      intro t ht
      simp [hgone t ht]
    show w.window.entries.dropWhile (isStale w.window.length now) =
      (gone ++ w.window.entries).filter fun t => !isStale w.window.length now t
    rw [hdrop, List.filter_append, hnone, List.nil_append]
  · have hall : gone.filter (isStale w.window.length now) = gone := List.filter_eq_self.mpr hgone
    show w.reported ++ (w.window.entries.takeWhile (isStale w.window.length now)).map Timed.value =
      ((gone ++ w.window.entries).filter (isStale w.window.length now)).map Timed.value
    rw [htake, hreported, List.filter_append, hall, List.map_append]

theorem Keeps.of_sorts (h : w.Sorts now added)
    (hordered : added.Pairwise fun s t => s.addedAt ≤ t.addedAt)
    (hpast : ∀ t ∈ added, t.addedAt ≤ now) : w.Keeps now added := by
  refine ⟨⟨added.filter (isStale w.window.length now), ?_, h.reported, ?_⟩, hordered, hpast⟩
  · obtain ⟨htake, hdrop⟩ := cut_stale hordered w.window.length now
    rw [h.held, ← htake, ← hdrop, List.takeWhile_append_dropWhile]
  · intro t ht
    exact (List.mem_filter.mp ht).2

/-- The window right after a value has entered it and before the eviction that follows. -/
def enter (w : Watched α) (now : Duration) (v : α) : Watched α :=
  ⟨{ w.window with queue := ⟨w.window.entries ++ [⟨v, now⟩]⟩ }, w.reported⟩

theorem perform_add (w : Watched α) (now : Duration) (v : α) :
    w.perform now (.add v) = (w.enter now v).perform now .evict := rfl

theorem Keeps.enter (h : w.Keeps now added) (v : α) :
    (w.enter now v).Keeps now (added ++ [⟨v, now⟩]) := by
  obtain ⟨gone, rfl, hreported, hgone⟩ := h.split
  refine ⟨⟨gone, List.append_assoc _ _ _, hreported, hgone⟩, ?_, ?_⟩
  · rw [List.pairwise_append]
    refine ⟨h.ordered, List.pairwise_singleton _ _, ?_⟩
    intro s hs t ht
    rw [List.mem_singleton.mp ht]
    exact h.past s hs
  · intro t ht
    rcases List.mem_append.mp ht with hold | hnew
    · exact h.past t hold
    · rw [List.mem_singleton.mp hnew]
      exact Nat.le_refl _

/-- An addition and a forced eviction leave exactly the fresh values in the window. -/
theorem Keeps.sorts_perform (h : w.Keeps now added) {op : Op α} (hop : op ≠ .clear) :
    (w.perform now op).Sorts now (Run.note added now op) := by
  cases op with
  | add v =>
      rw [perform_add]
      exact (h.enter v).sorts_evict
  | evict => exact h.sorts_evict
  | clear => exact absurd rfl hop

theorem Keeps.perform (h : w.Keeps now added) (op : Op α) :
    (w.perform now op).Keeps now (Run.note added now op) := by
  cases op with
  | add v =>
      have hv := h.enter v
      exact .of_sorts (h.sorts_perform nofun) hv.ordered hv.past
  | evict => exact .of_sorts (h.sorts_perform nofun) h.ordered h.past
  | clear => exact keeps_empty _ _

theorem length_perform (w : Watched α) (now : Duration) (op : Op α) :
    (w.perform now op).window.length = w.window.length := by
  cases op <;> rfl

end Watched

/-! ## Runs -/

namespace Run

theorem result_append (length : Duration) (run : Run α) (now : Duration) (op : Op α) :
    result length (run ++ [(now, op)]) = (result length run).perform now op := by
  rw [result, List.foldl_append]
  rfl

theorem added_append (run : Run α) (now : Duration) (op : Op α) :
    added (run ++ [(now, op)]) = note run.added now op := by
  rw [added, List.foldl_append]
  rfl

theorem length_result (length : Duration) (run : Run α) :
    (result length run).window.length = length := by
  induction run using List.reverseRecOn with
  | nil => rfl
  | append_singleton run e ih => rw [result_append, Watched.length_perform, ih]

theorem forward_append {run : Run α} {now : Duration} {op : Op α}
    (h : Forward (run ++ [(now, op)])) : run.Forward ∧ ∀ e ∈ run, e.1 ≤ now := by
  obtain ⟨hrun, -, hlast⟩ := List.pairwise_append.mp h
  exact ⟨hrun, fun e he => hlast e he _ List.mem_cons_self⟩

theorem keeps_result (length : Duration) {run : Run α} (hrun : run.Forward) {now : Duration}
    (hnow : ∀ e ∈ run, e.1 ≤ now) : (result length run).Keeps now run.added := by
  induction run using List.reverseRecOn generalizing now with
  | nil => exact Watched.keeps_empty length now
  | append_singleton run e ih =>
      obtain ⟨hbefore, hlast⟩ := forward_append hrun
      rw [result_append, added_append]
      have hstep := (ih hbefore hlast).perform e.2
      exact hstep.later (hnow e (List.mem_append_right _ List.mem_cons_self))

theorem added_withoutEvictions (run : Run α) : (withoutEvictions run).added = run.added := by
  induction run using List.reverseRecOn with
  | nil => rfl
  | append_singleton run e ih =>
      obtain ⟨now, op⟩ := e
      rw [withoutEvictions, List.filter_append, added_append]
      cases op with
      | evict =>
          rw [List.filter_cons_of_neg (by simp [Op.isEvict]), List.filter_nil, List.append_nil]
          exact ih
      | add v =>
          rw [List.filter_cons_of_pos rfl, List.filter_nil, added_append]
          exact congrArg (note · now (.add v)) ih
      | clear =>
          rw [List.filter_cons_of_pos rfl, List.filter_nil, added_append]
          rfl

end Run

open Run in
/-- Right after an addition or a forced eviction the window holds exactly the values added since the
last clear whose age does not exceed its length, in order and with their instants, and it has
reported exactly the others since then.  So another run that differs only in its forced evictions
ends with the same entries. -/
theorem holds_exactly_fresh (length : Duration) (run : Run α) (now : Duration) {op : Op α}
    (hop : op ≠ .clear) (hclock : Forward (run ++ [(now, op)])) :
    (result length (run ++ [(now, op)])).window.entries =
        ((run ++ [(now, op)] : Run α).added.filter fun t => now - t.addedAt ≤ length) ∧
      (result length (run ++ [(now, op)])).reported =
        ((run ++ [(now, op)] : Run α).added.filter fun t => length < now - t.addedAt).map
          Timed.value ∧
      ∀ other : Run α, withoutEvictions other = withoutEvictions run →
        Forward (other ++ [(now, op)]) →
        (result length (other ++ [(now, op)])).window.entries =
          (result length (run ++ [(now, op)])).window.entries := by
  have hheld : ∀ r : Run α, Forward (r ++ [(now, op)]) →
      (result length (r ++ [(now, op)])).Sorts now (r ++ [(now, op)] : Run α).added := by
    intro r hr
    obtain ⟨hbefore, hlast⟩ := forward_append hr
    rw [result_append, added_append]
    exact (keeps_result length hbefore hlast).sorts_perform hop
  refine ⟨?_, ?_, ?_⟩
  · rw [(hheld run hclock).held, length_result]
    refine List.filter_congr ?_
    intro t _
    rw [Bool.eq_iff_iff, not_isStale_iff, decide_eq_true_iff]
  · rw [(hheld run hclock).reported, length_result]
    rfl
  · intro other hsame hother
    have hadded : other.added = run.added := by
      rw [← added_withoutEvictions, hsame, added_withoutEvictions]
    rw [(hheld other hother).held, (hheld run hclock).held, added_append, added_append, hadded,
      length_result, length_result]

/-- One value is cleared, one outlives a window of five milliseconds, and one is just as old as the
window is long. -/
def Run.aged : Run Nat :=
  [(.ofMillis 0, .add 7), (.ofMillis 1, .clear), (.ofMillis 2, .add 1), (.ofMillis 4, .add 2),
    (.ofMillis 7, .evict)]

theorem holds_exactly_fresh_aged :
    Run.Forward (Run.aged ++ [(.ofMillis 9, .evict)]) ∧
      (Run.result (.ofMillis 5) (Run.aged ++ [(.ofMillis 9, .evict)])).window.entries =
        [⟨2, .ofMillis 4⟩] ∧
      (Run.result (.ofMillis 5) (Run.aged ++ [(.ofMillis 9, .evict)])).reported = [1] := by
  have hclock : Run.Forward (Run.aged ++ [(.ofMillis 9, .evict)]) := by decide
  have hop : (Op.evict : Op Nat) ≠ .clear := nofun
  obtain ⟨hheld, hreported, -⟩ :=
    holds_exactly_fresh (.ofMillis 5) Run.aged (.ofMillis 9) hop hclock
  exact ⟨hclock, hheld.trans rfl, hreported.trans rfl⟩

end SlidingWindow

end WindowedStats
