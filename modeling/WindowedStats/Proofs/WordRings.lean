import WindowedStats.Proofs.StoredUpdates
import WindowedStats.Rate.WordRing

/-!
# Tick rings in words

A ring counts in words and keeps its counters in a buffer, so each of its steps could go wrong: an
index could lie outside the buffer, a counter could be taken off a smaller total, and a tick or an
index could be raised beyond the last word.

One lemma for each operation says that no step goes wrong on a ring that holds anything at all, as
long as the ticks are words: a slot is part of the total, the oldest tick stays behind the tick for
which the window moves, and an index and an offset are both less than the size.  What is left to ask
for is that the buffer can be addressed and that the total stays a word.  Then the ring does in
words what it does in numbers of any size, whatever would become of an overflow (`step_eq`,
`result_eq`).  If the total does not stay a word, a program that stops at an overflow has stopped
(`step_stops_eq_none`).

What a program answers, and where it stops, is the same for two programs if each call keeps their
states related (`answersOf_eq`).  A program that may stop sooner than another answers like it until
then (`answersOf_of_some`).

`stores_live_updates` collects what a ring stores after every run.
-/

namespace WindowedStats

/-! ## Programs that may stop -/

section Programs

variable {σ τ κ α : Type} {step : σ → κ → Option (σ × α)} {step' : τ → κ → Option (τ × α)} {s : σ}
  {t : τ} {call : κ} {calls : List κ}

/-- The answers of a program to some calls, one after the other, unless it stops. -/
def answersOf (step : σ → κ → Option (σ × α)) (s : σ) : List κ → Option (List α)
  | [] => some []
  | call :: rest => do
    let (s, answer) ← step s call
    let answers ← answersOf step s rest
    return answer :: answers

theorem answersOf_cons_of_some {next : σ} {answer : α} (h : step s call = some (next, answer))
    (rest : List κ) :
    answersOf step s (call :: rest) = (answersOf step next rest).map (answer :: ·) := by
  rw [answersOf, h]
  exact Option.map_eq_bind.symm

theorem answersOf_cons_of_none (h : step s call = none) (rest : List κ) :
    answersOf step s (call :: rest) = none := by
  rw [answersOf, h]
  rfl

/-- Two programs answer alike, and stop at the same call, if from related states each call stops
both or gets the same answer from both and leaves them in related states. -/
theorem answersOf_eq (R : σ → τ → Prop)
    (hstep : ∀ s t, R s t → ∀ call ∈ calls,
      Option.Rel (fun x y => x.2 = y.2 ∧ R x.1 y.1) (step s call) (step' t call))
    (h : R s t) : answersOf step s calls = answersOf step' t calls := by
  induction calls generalizing s t with
  | nil => rfl
  | cons call rest ih =>
      have hrest : ∀ s t, R s t → answersOf step s rest = answersOf step' t rest := fun s t h =>
        ih (fun s t h c hc => hstep s t h c (List.mem_cons_of_mem call hc)) h
      have hcall := hstep s t h call List.mem_cons_self
      rw [answersOf, answersOf]
      generalize step s call = x, step' t call = y at hcall
      cases hcall with
      | none => rfl
      | @some x y hxy =>
          obtain ⟨next, answer⟩ := x
          obtain ⟨next', answer'⟩ := y
          obtain ⟨rfl, hnext⟩ := hxy
          show (answersOf step next rest).bind _ = (answersOf step' next' rest).bind _
          rw [hrest next next' hnext]

/-- A program does as another one as long as that one does not stop. -/
theorem answersOf_of_some {step' : σ → κ → Option (σ × α)} (R : σ → Prop)
    (hstep : ∀ s, R s → ∀ call ∈ calls, ∀ x, step s call = some x → step' s call = some x ∧ R x.1)
    (h : R s) {given : List α} (hgiven : answersOf step s calls = some given) :
    answersOf step' s calls = some given := by
  induction calls generalizing s given with
  | nil => exact hgiven
  | cons call rest ih =>
      rw [answersOf, Option.bind_eq_bind, Option.bind_eq_some_iff] at hgiven ⊢
      obtain ⟨x, hx, hrest⟩ := hgiven
      obtain ⟨hx', hnext⟩ := hstep s h call List.mem_cons_self x hx
      obtain ⟨next, answer⟩ := x
      refine ⟨(next, answer), hx', ?_⟩
      simp only [Option.bind_eq_bind, Option.bind_eq_some_iff] at hrest ⊢
      obtain ⟨later, hlater, hanswers⟩ := hrest
      exact ⟨later, ih (fun s hs c hc => hstep s hs c (List.mem_cons_of_mem call hc)) hnext hlater,
        hanswers⟩

end Programs

namespace TickRing

/-- What an operation shows: whether it has taken an update in, and the total after it. -/
inductive Answer where
  | added (accepted : Bool) (total : Nat)
  | advanced (total : Nat)
deriving DecidableEq

def answer (r : TickRing) (op : Op) : Answer :=
  match op with
  | .add count tick => .added (r.add? count.toNat tick.toNat).isSome (r.perform op).total
  | .advance _ => .advanced (r.perform op).total

end TickRing

namespace WordRing

open TickRing (Op Answer)

/-! ## Runs in words -/

/-- The ring after an operation, and what the operation shows. -/
def step (o : Overflow) (r : TickRing) : Op → Option (TickRing × Answer)
  | .add count tick => do
    let (r, accepted) ← add o r count.toNat tick.toNat
    return (r, .added accepted r.total)
  | .advance tick => do
    let r ← advance o r tick.toNat
    return (r, .advanced r.total)

def perform (o : Overflow) (r : TickRing) (op : Op) : Option TickRing := do
  let (r, _) ← step o r op
  return r

/-- The ring after a run from the empty ring, unless the program has stopped. -/
def result (o : Overflow) (span : Nat) (ops : List Op) : Option TickRing :=
  ops.foldlM (perform o) (.empty span)

/-! ## No step goes wrong -/

variable {o : Overflow} {r : TickRing} {f : Nat → Nat} {count tick now : Nat}

theorem slot?_of_lt {i : Nat} (h : i < r.size) : slot? r i = some (r.slots.get i) := if_pos h

theorem dropOldest_eq (h : r.Holds f) (hsize : r.size ≤ maxWord)
    (htick : r.oldestTick + 1 ≤ maxWord) : dropOldest o r = some r.dropOldest := by
  have hindex := h.oldestIndex_lt
  have hslot := h.get_le_total hindex
  have hnext : r.oldestIndex + 1 ≤ maxWord := by omega
  simp only [dropOldest, slot?_of_lt hindex, Overflow.sub_of_le hslot, Overflow.add_of_le hnext,
    Overflow.add_of_le htick, Option.bind_eq_bind, Option.bind_some]
  rfl

/-- A sweep that stops once nothing is left takes the same rounds whatever becomes of overflows. -/
theorem exists_sweep_eq (n k : Nat) (h : r.Holds f) (hsize : r.size ≤ maxWord)
    (htick : r.oldestTick + n ≤ maxWord) :
    ∃ rounds, ∀ o, sweep o isEmpty n (r, k) = some (TickRing.sweep n r, rounds) := by
  induction n generalizing r k with
  | zero => exact ⟨k, fun _ => rfl⟩
  | succ n ih =>
      have hdrop : ∀ o, dropOldest o r = some r.dropOldest :=
        fun o => dropOldest_eq h hsize (by omega)
      by_cases hempty : r.dropOldest.total = 0
      · refine ⟨k + 1, ?_⟩
        intro o
        simp [sweep, hdrop, TickRing.sweep, isEmpty, hempty]
      · have hnext : r.dropOldest.oldestTick + n ≤ maxWord := by
          rw [TickRing.oldestTick_dropOldest]
          omega
        obtain ⟨rounds, hrest⟩ := ih (k + 1) h.dropOldest hsize hnext
        refine ⟨rounds, ?_⟩
        intro o
        simp [sweep, hdrop, TickRing.sweep, isEmpty, hempty, hrest]

theorem exists_advanceUntil_eq (h : r.Holds f) (hsize : r.size ≤ maxWord) (hnow : now ≤ maxWord) :
    ∃ rounds, ∀ o, advanceUntil o isEmpty r now = some (r.advance now, rounds) := by
  simp only [advanceUntil, TickRing.advance]
  split
  · exact ⟨0, fun _ => rfl⟩
  · next hlt =>
    obtain ⟨rounds, hswept⟩ :=
      exists_sweep_eq (now - r.span - r.oldestTick) 0 h hsize (by omega)
    refine ⟨rounds, ?_⟩
    intro o
    rw [hswept]
    rfl

theorem advance_eq (h : r.Holds f) (hsize : r.size ≤ maxWord) (hnow : now ≤ maxWord) :
    advance o r now = some (r.advance now) := by
  obtain ⟨rounds, hmoved⟩ := exists_advanceUntil_eq h hsize hnow
  rw [advance, hmoved]
  rfl

theorem bump_eq (h : r.Holds f) (hspan : 2 * r.span ≤ maxWord) (hlo : r.oldestTick ≤ tick)
    (hhi : tick < r.oldestTick + r.size) (htotal : r.total + count ≤ maxWord) :
    bump o r count tick = some (r.bump count tick) := by
  have hindex := h.oldestIndex_lt
  have hplace : r.oldestIndex + (tick - r.oldestTick) ≤ maxWord := by
    simp only [TickRing.size] at hindex hhi
    omega
  have hslot : (r.oldestIndex + (tick - r.oldestTick)) % r.size < r.size :=
    Nat.mod_lt _ r.size_pos
  have hcounter := h.get_le_total hslot
  have hcount : r.slots.get ((r.oldestIndex + (tick - r.oldestTick)) % r.size) + count ≤ maxWord :=
    by omega
  simp only [bump, Overflow.sub_of_le hlo, Overflow.add_of_le hplace, slot?_of_lt hslot,
    Overflow.add_of_le hcount, Overflow.add_of_le htotal, Option.bind_eq_bind, Option.bind_some]
  rfl

/-- A program that stops at an overflow only goes on with a total that is a word. -/
theorem total_le_of_bump {r' : TickRing} (h : bump .stops r count tick = some r') :
    r.total + count ≤ maxWord := by
  simp only [bump, Option.bind_eq_bind, Option.bind_eq_some_iff] at h
  obtain ⟨offset, -, place, -, slot, -, counter, -, total, htotal, -⟩ := h
  exact (Checked.add?_eq_some.mp htotal).1

theorem size_le_maxWord (h : 2 * r.span ≤ maxWord) : r.size ≤ maxWord := by
  simp only [TickRing.size, maxWord] at h ⊢
  omega

theorem add_eq (h : r.Holds f) (hspan : 2 * r.span ≤ maxWord) (htick : tick ≤ maxWord)
    (htotal : ((r.add? count tick).getD r).total ≤ maxWord) :
    add o r count tick = some ((r.add? count tick).getD r, (r.add? count tick).isSome) := by
  rcases Nat.lt_or_ge tick r.oldestTick with hlt | hle
  · rw [add, if_pos hlt, TickRing.add?_of_lt hlt]
    rfl
  · rw [TickRing.add?_of_le hle] at htotal ⊢
    obtain ⟨hlo, hhi⟩ := TickRing.tick_mem_advance hle
    have hmoved : advance o r tick = some (r.advance tick) :=
      advance_eq h (size_le_maxWord hspan) htick
    have hraised : bump o (r.advance tick) count tick = some ((r.advance tick).bump count tick) :=
      bump_eq (h.advance tick) (by rwa [TickRing.span_advance]) hlo hhi htotal
    rw [add, if_neg (Nat.not_lt.mpr hle), hmoved, Option.bind_eq_bind, Option.bind_some, hraised]
    rfl

theorem add_stops_eq_none (h : r.Holds f) (hspan : 2 * r.span ≤ maxWord) (htick : tick ≤ maxWord)
    (htotal : r.total ≤ maxWord) (hover : maxWord < ((r.add? count tick).getD r).total) :
    add .stops r count tick = none := by
  rcases Nat.lt_or_ge tick r.oldestTick with hlt | hle
  · rw [TickRing.add?_of_lt hlt] at hover
    exact absurd htotal (Nat.not_le.mpr hover)
  · rw [TickRing.add?_of_le hle] at hover
    have hmoved : advance .stops r tick = some (r.advance tick) :=
      advance_eq h (size_le_maxWord hspan) htick
    have hstopped : bump .stops (r.advance tick) count tick = none := by
      refine Option.eq_none_iff_forall_ne_some.mpr ?_
      intro r' hr'
      exact absurd (total_le_of_bump hr') (Nat.not_le.mpr hover)
    rw [add, if_neg (Nat.not_lt.mpr hle), hmoved, Option.bind_eq_bind, Option.bind_some, hstopped]
    rfl

/-! ## Steps and runs -/

theorem step_eq (h : r.Holds f) (hspan : 2 * r.span ≤ maxWord) {op : Op}
    (htotal : (r.perform op).total ≤ maxWord) :
    step o r op = some (r.perform op, r.answer op) := by
  cases op with
  | advance tick =>
      rw [step, advance_eq h (size_le_maxWord hspan) (toNat_le_maxWord tick)]
      rfl
  | add count tick =>
      rw [step, add_eq h hspan (toNat_le_maxWord tick) htotal]
      rfl

theorem step_stops_eq_none (h : r.Holds f) (hspan : 2 * r.span ≤ maxWord) {op : Op}
    (htotal : r.total ≤ maxWord) (hover : maxWord < (r.perform op).total) :
    step .stops r op = none := by
  cases op with
  | advance tick =>
      have hle := Nat.le_trans (r.total_advance_le tick.toNat) htotal
      exact absurd hle (Nat.not_le.mpr hover)
  | add count tick =>
      rw [step, add_stops_eq_none h hspan (toNat_le_maxWord tick) htotal hover]
      rfl

theorem perform_eq (h : r.Holds f) (hspan : 2 * r.span ≤ maxWord) {op : Op}
    (htotal : (r.perform op).total ≤ maxWord) : perform o r op = some (r.perform op) := by
  rw [perform, step_eq h hspan htotal]
  rfl

theorem result_concat (o : Overflow) (span : Nat) (ops : List Op) (op : Op) :
    result o span (ops ++ [op]) = (result o span ops).bind (perform o · op) := by
  simp only [result, List.foldlM_append, List.foldlM_cons, List.foldlM_nil, bind_pure]
  rfl

/-- No step goes wrong in a run of which the total stays a word. -/
theorem result_eq {span : Nat} (hspan : 2 * span ≤ maxWord) {ops : List Op}
    (htotal : ∀ before, before <+: ops → ((TickRing.empty span).after before).total ≤ maxWord) :
    result o span ops = some ((TickRing.empty span).after ops) := by
  induction ops using List.reverseRecOn with
  | nil => rfl
  | append_singleton ops op ih =>
      have hbefore := ih fun before hb => htotal before (hb.trans (List.prefix_append _ _))
      have hrep := TickRing.represents_after span ops
      have haddressed : 2 * ((TickRing.empty span).after ops).span ≤ maxWord := by
        rwa [hrep.span_eq]
      have hlast := htotal _ (List.prefix_refl _)
      rw [TickRing.after_concat] at hlast ⊢
      rw [result_concat, hbefore]
      exact perform_eq hrep.holds haddressed hlast

/-- A program that stops at an overflow only goes on with the ring that counts in numbers of any
size, and every program has the same ring then. -/
theorem eq_after_of_result {span : Nat} (hspan : 2 * span ≤ maxWord) {ops : List Op}
    (h : result .stops span ops = some r) :
    r = (TickRing.empty span).after ops ∧ r.total ≤ maxWord ∧
      ∀ o, result o span ops = some r := by
  induction ops using List.reverseRecOn generalizing r with
  | nil =>
      obtain rfl : TickRing.empty span = r := Option.some.inj h
      exact ⟨rfl, Nat.zero_le _, fun _ => rfl⟩
  | append_singleton ops op ih =>
      rw [result_concat, Option.bind_eq_some_iff] at h
      obtain ⟨before, hbefore, hstep⟩ := h
      obtain ⟨rfl, htotal, hsame⟩ := ih hbefore
      have hrep := TickRing.represents_after span ops
      have haddressed : 2 * ((TickRing.empty span).after ops).span ≤ maxWord := by
        rwa [hrep.span_eq]
      rcases Nat.lt_or_ge maxWord (((TickRing.empty span).after ops).perform op).total with
        hover | hle
      · rw [perform, step_stops_eq_none hrep.holds haddressed htotal hover] at hstep
        cases hstep
      · rw [perform_eq hrep.holds haddressed hle] at hstep
        obtain rfl := Option.some.inj hstep
        refine ⟨(TickRing.after_concat _ _ _).symm, hle, ?_⟩
        intro o
        rw [result_concat, hsame o]
        exact perform_eq hrep.holds haddressed hle

end WordRing

/-- An operation that stops at an overflow. -/
def Checked.perform? : TickRing → TickRing.Op → Option TickRing := WordRing.perform .stops

end WindowedStats

namespace WindowedStats.TickRing

/-- After every run from the empty ring, its total is the sum of all its slots and its oldest index
is one of them; its oldest tick is the horizon of the run, before which an update is refused.  Every
live update lies in the window, and the slot that lies as many places after the oldest one as its
tick lies after the oldest tick shows the live counts of the tick; different live ticks have
different slots, and all other slots show zero.  If the buffer can be addressed and the total stays
a word, no index on the way lay outside the buffer, no difference was negative and no sum exceeded a
word, with whatever ticks. -/
theorem stores_live_updates (span : Nat) (ops : List Op) :
    let r := (empty span).after ops
    let place := fun tick => (r.oldestIndex + (tick - r.oldestTick)) % (span + 1)
    r.total = ∑ i ∈ Finset.range (span + 1), r.slots.get i ∧
    r.oldestIndex ≤ span ∧
    (r.oldestTick = horizon span ops ∧
      ∀ count tick, (r.add? count tick).isSome ↔ horizon span ops ≤ tick) ∧
    (∀ u ∈ live span ops, r.oldestTick ≤ u.1 ∧ u.1 ≤ r.oldestTick + span ∧
      r.slots.get (place u.1) = UpdateLog.countAt (live span ops) u.1) ∧
    (∀ u ∈ live span ops, ∀ v ∈ live span ops, u.1 ≠ v.1 → place u.1 ≠ place v.1) ∧
    (∀ i ≤ span, (∀ u ∈ live span ops, place u.1 ≠ i) → r.slots.get i = 0) ∧
    (2 * span ≤ maxWord →
      (∀ before, before <+: ops → ((empty span).after before).total ≤ maxWord) →
      ops.foldlM Checked.perform? (empty span) = some r) := by
  intro r place
  have hrep : r.Represents span ops := represents_after span ops
  have hplace : place = r.index := by
    funext tick
    rw [index, hrep.size_eq]
  rw [hplace, ← hrep.size_eq]
  refine ⟨hrep.holds.sum_slots, ?_, ⟨hrep.oldestTick_eq, ?_⟩, ?_, ?_, ?_, ?_⟩
  · have hindex := hrep.holds.oldestIndex_lt
    rw [hrep.size_eq] at hindex
    omega
  · intro count tick
    rw [← hrep.oldestTick_eq]
    rcases Nat.lt_or_ge tick r.oldestTick with hlt | hle
    · simp [add?_of_lt hlt, hlt]
    · simp [add?_of_le hle, hle]
  · intro u hu
    obtain ⟨hlo, hhi⟩ := hrep.mem_window hu
    exact ⟨hlo, hhi, hrep.get_index hu⟩
  · intro u hu v hv
    exact hrep.index_ne hu hv
  · intro i hi
    exact hrep.get_free hi
  · intro hspan
    exact WordRing.result_eq hspan

/-- Two ticks and the oldest one, up to the last tick that a word holds: the sweep stops early, an
update goes back by one tick, and another one is too late. -/
theorem stores_live_updates_at_the_end :
    let ops : List Op := [.add 5 0, .add 3 2, .add 2 18446744073709551615, .advance 7,
      .add 4 18446744073709551614, .add 9 18446744073709551612]
    live 2 ops = [(18446744073709551615, 2), (18446744073709551614, 4)] ∧
      2 * 2 ≤ maxWord ∧
      (∀ before, before <+: ops → ((empty 2).after before).total ≤ maxWord) ∧
      ops.foldlM Checked.perform? (empty 2) = some ((empty 2).after ops) ∧
      ((empty 2).after ops).slots.get 0 = 0 := by
  intro ops
  have htakes : ∀ n < 7, ((empty 2).after (ops.take n)).total ≤ maxWord := by decide +kernel
  have htotal : ∀ before, before <+: ops → ((empty 2).after before).total ≤ maxWord := by
    intro before hprefix
    rw [List.prefix_iff_eq_take.mp hprefix]
    exact htakes _ (Nat.lt_succ_of_le hprefix.length_le)
  obtain ⟨-, -, -, -, -, hfree, hchecked⟩ := stores_live_updates 2 ops
  exact ⟨by decide, by decide, htotal, hchecked (by decide) htotal,
    hfree 0 (by decide) (by decide +kernel)⟩

end WindowedStats.TickRing
