import Mathlib.Data.List.DropRight
import Mathlib.Data.List.Induction
import WindowedStats.Window.Tagged

/-!
# Evicting queues cut what is pushed in two

An evicting queue neither knows how its entries are made nor which of them may go: each push brings
its own way to make an entry of a value, and each eviction its own rule.  Here nothing is assumed of
either.  A rule need not treat older entries like younger ones, and no two steps need agree.

What a single eviction does is a `Cut` of the entries: all entries in front may go, and the first of
the others, if there is one, may not.  Such a cut leaves nothing for a second one under the same
rule (`Watched.perform_evict_perform`).  Over a whole run the cuts add up: the entries that have
entered the queue since it was last cleared are those that have left it followed by those that it
holds (`Watched.Splits`), because every cut is made where the one before it ended.
-/

namespace WindowedStats

namespace EvictingQueue

variable {α ε : Type}

/-! ## A single eviction -/

/-- Entries in two parts: all of the first part may go, and the first entry of the second part may
not. -/
structure Cut (mayGo : ε → Bool) (whole gone kept : List ε) : Prop where
  split : whole = gone ++ kept
  gone_mayGo : ∀ e ∈ gone, mayGo e = true
  oldest_stays : ∀ e, kept.head? = some e → mayGo e = false

theorem cut_evict (mayGo : ε → Bool) (q : EvictingQueue ε) :
    Cut mayGo q.entries (q.evict mayGo).2 (q.evict mayGo).1.entries where
  split := (evicted_append_entries mayGo q).symm
  gone_mayGo := fun _ he => mayGo_of_mem_evicted he
  oldest_stays := by
    intro e he
    have hstop := List.head?_dropWhile_not mayGo q.entries
    rw [entries_evict] at he
    rwa [he] at hstop

/-- An eviction of entries of which the oldest may not go does nothing. -/
theorem evict_of_oldest_stays {mayGo : ε → Bool} {q : EvictingQueue ε}
    (h : ∀ e, q.entries.head? = some e → mayGo e = false) : q.evict mayGo = (q, []) := by
  obtain ⟨entries⟩ := q
  cases entries with
  | nil => rfl
  | cons e rest =>
      have he : ¬ mayGo e = true := by simp [h e rfl]
      rw [evict, List.dropWhile_cons_of_neg he, List.takeWhile_cons_of_neg he]

/-! ## Runs -/

/-- An operation on a queue.  A push makes an entry of a value; a push and an eviction are given a
rule. -/
inductive Op (α ε : Type) where
  | push (wrap : α → ε) (mayGo : ε → Bool) (v : α)
  | evict (mayGo : ε → Bool)
  | clear

namespace Op

/-- The rule under which an operation evicts, if it does. -/
def rule? : Op α ε → Option (ε → Bool)
  | push _ mayGo _ => some mayGo
  | evict mayGo => some mayGo
  | clear => none

/-- The value that an operation pushes, if it does. -/
def value? : Op α ε → Option α
  | push _ _ v => some v
  | evict _ => none
  | clear => none

/-- The entry that an operation appends, if it does. -/
def arrival? : Op α ε → Option ε
  | push wrap _ v => some (wrap v)
  | evict _ => none
  | clear => none

end Op

/-- How the value of an entry is read while the queue holds it, and taken out when it leaves. -/
structure Access (α ε : Type) where
  value : ε → α
  intoValue : ε → α

/-- The entry that an operation makes of a value holds that value. -/
def Op.Wraps (access : Access α ε) : Op α ε → Prop
  | push wrap _ v => access.value (wrap v) = v ∧ access.intoValue (wrap v) = v
  | _ => True

theorem Op.Wraps.map_arrival? {access : Access α ε} {op : Op α ε} (h : op.Wraps access) :
    op.arrival?.map access.value = op.value? ∧ op.arrival?.map access.intoValue = op.value? := by
  cases op with
  | push wrap mayGo v => exact ⟨congrArg some h.1, congrArg some h.2⟩
  | evict mayGo => exact ⟨rfl, rfl⟩
  | clear => exact ⟨rfl, rfl⟩

/-- Operations in order. -/
abbrev Run (α ε : Type) := List (Op α ε)

/-- A queue with the values that it has reported since it was last cleared. -/
structure Watched (α ε : Type) where
  queue : EvictingQueue ε
  reported : List α

namespace Watched

/-- The queue that an eviction leaves, with the values of the entries that went. -/
def ofEviction (access : Access α ε) (w : Watched α ε) (r : EvictingQueue ε × List ε) :
    Watched α ε :=
  ⟨r.1, w.reported ++ r.2.map access.intoValue⟩

def perform (access : Access α ε) (w : Watched α ε) : Op α ε → Watched α ε
  | .push wrap mayGo v => w.ofEviction access (w.queue.push mayGo (wrap v))
  | .evict mayGo => w.ofEviction access (w.queue.evict mayGo)
  | .clear => ⟨w.queue.clear, []⟩

end Watched

namespace Run

/-- The queue after a run. -/
def result (access : Access α ε) (run : Run α ε) : Watched α ε :=
  run.foldl (Watched.perform access) ⟨.empty, []⟩

/-- The operations after the last clear, which is the only operation without a rule. -/
def sinceClear (run : Run α ε) : Run α ε := run.rtakeWhile fun op => op.rule?.isSome

/-- The values pushed since the last clear, oldest first. -/
def pushed (run : Run α ε) : List α := run.sinceClear.filterMap Op.value?

/-- The entries that have entered since the last clear, oldest first. -/
def entered (run : Run α ε) : List ε := run.sinceClear.filterMap Op.arrival?

theorem result_append (access : Access α ε) (run : Run α ε) (op : Op α ε) :
    result access (run ++ [op]) = (result access run).perform access op := by
  rw [result, List.foldl_append]
  rfl

theorem entered_append_clear (run : Run α ε) : entered (run ++ [.clear]) = [] := by
  rw [entered, sinceClear, List.rtakeWhile_concat_neg _ _ _ (by simp [Op.rule?]), List.filterMap_nil]

theorem entered_append_of_rule? (run : Run α ε) {op : Op α ε} {mayGo : ε → Bool}
    (hop : op.rule? = some mayGo) : entered (run ++ [op]) = run.entered ++ op.arrival?.toList := by
  rw [entered, sinceClear, List.rtakeWhile_concat_pos _ _ _ (by simp [hop]), List.filterMap_append]
  cases harrival : op.arrival? with
  | none => simp [harrival, entered, sinceClear]
  | some e => simp [harrival, entered, sinceClear]

end Run

namespace Watched

variable {access : Access α ε} {w : Watched α ε} {entered : List ε}

/-- The entries that have entered are those whose values were reported, and then those that the
queue still holds. -/
def Splits (access : Access α ε) (w : Watched α ε) (entered : List ε) : Prop :=
  ∃ gone, entered = gone ++ w.queue.entries ∧ w.reported = gone.map access.intoValue

/-- An operation that evicts cuts the entries, the new one included, where its rule says, and
reports the values of those in front. -/
theorem exists_cut_perform (access : Access α ε) (w : Watched α ε) {op : Op α ε} {mayGo : ε → Bool}
    (hop : op.rule? = some mayGo) :
    ∃ gone, Cut mayGo (w.queue.entries ++ op.arrival?.toList) gone
        (w.perform access op).queue.entries ∧
      (w.perform access op).reported = w.reported ++ gone.map access.intoValue := by
  cases op with
  | push wrap rule v =>
      cases hop
      exact ⟨_, cut_evict mayGo ⟨w.queue.entries ++ [wrap v]⟩, rfl⟩
  | evict rule =>
      cases hop
      refine ⟨_, ?_, rfl⟩
      rw [Op.arrival?, Option.toList_none, List.append_nil]
      exact cut_evict mayGo w.queue
  | clear => cases hop

theorem Splits.perform (h : w.Splits access entered) {op : Op α ε} {mayGo : ε → Bool}
    (hop : op.rule? = some mayGo) :
    (w.perform access op).Splits access (entered ++ op.arrival?.toList) := by
  obtain ⟨before, rfl, hbefore⟩ := h
  obtain ⟨gone, hcut, hreported⟩ := exists_cut_perform access w hop
  refine ⟨before ++ gone, ?_, ?_⟩
  · rw [List.append_assoc, hcut.split, List.append_assoc]
  · rw [hreported, hbefore, List.map_append]

/-- A second eviction under the rule of an operation finds nothing. -/
theorem perform_evict_perform (access : Access α ε) (w : Watched α ε) {op : Op α ε}
    {mayGo : ε → Bool} (hop : op.rule? = some mayGo) :
    (w.perform access op).perform access (.evict mayGo) = w.perform access op := by
  obtain ⟨gone, hcut, -⟩ := exists_cut_perform access w hop
  rw [perform, evict_of_oldest_stays hcut.oldest_stays, ofEviction, List.map_nil, List.append_nil]

end Watched

namespace Run

theorem splits_result (access : Access α ε) (run : Run α ε) :
    (result access run).Splits access run.entered := by
  induction run using List.reverseRecOn with
  | nil => exact ⟨[], rfl, rfl⟩
  | append_singleton run op ih =>
      rw [result_append]
      cases op with
      | clear =>
          rw [entered_append_clear]
          exact ⟨[], rfl, rfl⟩
      | push wrap mayGo v =>
          rw [entered_append_of_rule? run rfl]
          exact ih.perform rfl
      | evict mayGo =>
          rw [entered_append_of_rule? run rfl]
          exact ih.perform rfl

/-- If every entry holds the value of which it was made, the entries show the values pushed, and
leave them behind when they go. -/
theorem map_entered {access : Access α ε} {run : Run α ε} (hrun : ∀ op ∈ run, op.Wraps access) :
    run.entered.map access.value = run.pushed ∧ run.entered.map access.intoValue = run.pushed := by
  have hrecent : ∀ op ∈ run.sinceClear, op.Wraps access := fun op hop =>
    hrun op ((List.rtakeWhile_suffix _ _).subset hop)
  rw [entered, pushed, List.map_filterMap, List.map_filterMap]
  constructor
  · refine List.filterMap_congr fun op hop => ?_
    exact (hrecent op hop).map_arrival?.1
  · refine List.filterMap_congr fun op hop => ?_
    exact (hrecent op hop).map_arrival?.2

end Run

open Run in
/-- Whatever makes the entries and whichever may go, the entries that have entered since the last
clear are those that have left, whose values were reported, and then those that the queue holds.  So
if the entries hold the values of which they were made, the values reported and then those held are
the values pushed.

Each push and each eviction cuts the entries, the new one included, at the first that may not go
under its rule; a second eviction under that rule neither changes the queue nor reports anything. -/
theorem reported_append_held (access : Access α ε) (run : Run α ε) :
    ((∃ gone, run.entered = gone ++ (result access run).queue.entries ∧
        (result access run).reported = gone.map access.intoValue) ∧
      ((∀ op ∈ run, op.Wraps access) →
        (result access run).reported ++ (result access run).queue.entries.map access.value =
          run.pushed)) ∧
    ∀ (op : Op α ε) (mayGo : ε → Bool), op.rule? = some mayGo →
      (∃ gone, Cut mayGo ((result access run).queue.entries ++ op.arrival?.toList) gone
          (result access (run ++ [op])).queue.entries ∧
        (result access (run ++ [op])).reported =
          (result access run).reported ++ gone.map access.intoValue) ∧
      result access (run ++ [op] ++ [.evict mayGo]) = result access (run ++ [op]) := by
  have hsplits := splits_result access run
  refine ⟨⟨hsplits, ?_⟩, ?_⟩
  · intro hwraps
    obtain ⟨gone, hentered, hreported⟩ := hsplits
    obtain ⟨hvalue, hinto⟩ := map_entered hwraps
    -- The entries that have left show their values to the two kinds of access alike.
    have hgone : gone.map access.intoValue = gone.map access.value := by
      rw [hentered, List.map_append] at hvalue hinto
      exact (List.append_inj (hinto.trans hvalue.symm) (by simp)).1
    rw [hreported, hgone, ← List.map_append, ← hentered, hvalue]
  · intro op mayGo hop
    rw [result_append access (run ++ [op]), result_append]
    exact ⟨(result access run).exists_cut_perform access hop,
      (result access run).perform_evict_perform access hop⟩

/-- The values of tagged entries. -/
def Access.tagged : Access Int Tagged := ⟨Tagged.value, Tagged.value⟩

/-- Entries are numbered anew after a clear, and the rule changes from one push to the next. -/
def Run.numbered : Run Int Tagged :=
  [.push (⟨·, 0⟩) (EvictionRule.never.mayGo 0) 7, .clear,
    .push (⟨·, 0⟩) (EvictionRule.never.mayGo 0) 3,
    .push (⟨·, 1⟩) (EvictionRule.never.mayGo 0) 4]

/-- An odd value stays behind an even one. -/
theorem reported_append_held_numbered :
    let last : Op Int Tagged := .push (⟨·, 2⟩) (EvictionRule.odd.mayGo 0) 5
    (∀ op ∈ Run.numbered ++ [last], op.Wraps Access.tagged) ∧
      last.rule? = some (EvictionRule.odd.mayGo 0) ∧
      (Run.result .tagged (Run.numbered ++ [last])).queue.entries = [⟨4, 1⟩, ⟨5, 2⟩] ∧
      (Run.result .tagged (Run.numbered ++ [last])).reported = [3] ∧
      [3] ++ [⟨4, 1⟩, ⟨5, 2⟩].map Access.tagged.value = Run.pushed (Run.numbered ++ [last]) ∧
      Run.result .tagged (Run.numbered ++ [last] ++ [.evict (EvictionRule.odd.mayGo 0)]) =
        Run.result .tagged (Run.numbered ++ [last]) := by
  intro last
  have hwraps : ∀ op ∈ Run.numbered ++ [last], op.Wraps Access.tagged := by
    simp [Run.numbered, last, Op.Wraps, Access.tagged]
  have hrule : last.rule? = some (EvictionRule.odd.mayGo 0) := rfl
  obtain ⟨⟨-, hparts⟩, -⟩ := reported_append_held .tagged (Run.numbered ++ [last])
  obtain ⟨-, hsteps⟩ := reported_append_held .tagged Run.numbered
  exact ⟨hwraps, hrule, rfl, rfl, hparts hwraps, (hsteps last _ hrule).2⟩

end EvictingQueue

end WindowedStats
