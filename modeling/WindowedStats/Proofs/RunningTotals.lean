import WindowedStats.Proofs.FloatSums
import WindowedStats.Window.MovingAverage

/-!
# Running totals follow the window

A moving average never adds its values up.  It keeps a sum and a number of summands, which change
with every value that enters the window and with every value that leaves.  What is to be shown is
that these two are at every moment what a count and a sum over the held values would give.

For the number of summands this holds in any arithmetic, on any clock, also on one that moves while
an operation runs.  A value enters the total before it enters the window, so the count is ahead of
the window while the evictions of the same addition are under way; since the values that leave and
those that stay are together those that entered, no removal ever finds the count at zero.

For the sum it depends on the arithmetic.  An `Interpretation` says what the numbers of a type stand
for in an exact arithmetic, and asks of sums and differences only that they are right where some
number stands for the result.  Exact arithmetic stands for itself, and floats stand for rational
numbers.  If a number stands for each sum of values that were added one after another
(`Interpretation.Exact`), then the running sum stands for the sum of the held values: it only ever
passes through such sums.

`count_and_sum_of_held` says all this for the total after each operation of each run.  A value that
enters stays for as long as the clock moves on by no more than the window before the eviction of the
same addition comes to it.  On a clock that is faster it may leave at once
(`added_value_leaves_at_once`).
-/

namespace WindowedStats

/-! ## What numbers stand for -/

/-- What the numbers of a type stand for in an exact arithmetic.  A number is settled if it comes
from sums and differences that begin with zero; it is determined by what it stands for. -/
structure Interpretation (ν E : Type) [OfNat ν 0] [Add ν] [Sub ν] [AddCommGroup E] where
  value : ν → Option E
  IsSettled : ν → Prop
  isSettled_zero : IsSettled 0
  value_zero : value 0 = some 0
  add {x y z : ν} {a b : E} : IsSettled x → value x = some a → value y = some b →
    value z = some (a + b) → IsSettled (x + y) ∧ value (x + y) = some (a + b)
  sub {x y z : ν} {a b : E} : IsSettled x → value x = some a → value y = some b →
    value z = some (a - b) → IsSettled (x - y) ∧ value (x - y) = some (a - b)
  eq_of_value {x y : ν} {a : E} : IsSettled x → IsSettled y → value x = some a →
    value y = some a → x = y

namespace Interpretation

/-- Exact arithmetic stands for itself. -/
def identity (E : Type) [AddCommGroup E] : Interpretation E E where
  value := some
  IsSettled _ := True
  isSettled_zero := trivial
  value_zero := rfl
  add := by
    rintro x y z a b - ⟨⟩ ⟨⟩ -
    exact ⟨trivial, rfl⟩
  sub := by
    rintro x y z a b - ⟨⟩ ⟨⟩ -
    exact ⟨trivial, rfl⟩
  eq_of_value := by
    rintro x y a - - ⟨⟩ ⟨⟩
    rfl

/-- Floats stand for rational numbers. -/
def binary64 : Interpretation Float ℚ where
  value := Binary64.number
  IsSettled := Binary64.IsSettled
  isSettled_zero := Binary64.isSettled_zero
  value_zero := Binary64.number_zero
  add := Binary64.add_exact
  sub := Binary64.sub_exact
  eq_of_value := Binary64.IsSettled.eq_of_number

variable {ν E : Type} [OfNat ν 0] [Add ν] [Sub ν] [AddCommGroup E] (d : Interpretation ν E)

/-- The exact sum of what some numbers stand for, if each stands for something. -/
def total : List ν → Option E
  | [] => some 0
  | v :: vs => Option.map₂ (· + ·) (d.value v) (total vs)

/-- A number stands for the exact sum. -/
def Fits (vs : List ν) : Prop := ∃ z s, d.total vs = some s ∧ d.value z = some s

/-- A number stands for the exact sum of each stretch of a list. -/
def Exact (vs : List ν) : Prop := ∀ part, part <:+: vs → d.Fits part

variable {d} {v : ν} {us vs : List ν} {s : E}

theorem total_cons_eq_some :
    d.total (v :: vs) = some s ↔ ∃ a b, d.value v = some a ∧ d.total vs = some b ∧ a + b = s := by
  rw [total, Option.map₂_eq_some_iff]
  rfl

theorem total_append (us vs : List ν) :
    d.total (us ++ vs) = Option.map₂ (· + ·) (d.total us) (d.total vs) := by
  induction us with
  | nil =>
      rw [List.nil_append, total]
      cases d.total vs with
      | none => rfl
      | some s => exact congrArg some (zero_add s).symm
  | cons u us ih => rw [List.cons_append, total, total, ih, Option.map₂_assoc add_assoc]

theorem total_concat_eq_some :
    d.total (vs ++ [v]) = some s ↔ ∃ b a, d.total vs = some b ∧ d.value v = some a ∧ b + a = s := by
  have hv : d.total [v] = d.value v := by
    rw [total, total]
    cases d.value v with
    | none => rfl
    | some a => exact congrArg some (add_zero a)
  rw [total_append, hv, Option.map₂_eq_some_iff]
  rfl

theorem Exact.of_infix (h : d.Exact vs) (hus : us <:+: vs) : d.Exact us :=
  fun part hpart => h part (hpart.trans hus)

theorem Exact.fits (h : d.Exact vs) : d.Fits vs := h vs (List.infix_refl vs)

theorem exact_identity (vs : List E) : (Interpretation.identity E).Exact vs := by
  have htotal : ∀ part : List E, ∃ s, (Interpretation.identity E).total part = some s := by
    intro part
    induction part with
    | nil => exact ⟨0, rfl⟩
    | cons v part ih =>
        obtain ⟨s, hs⟩ := ih
        exact ⟨v + s, total_cons_eq_some.mpr ⟨v, s, rfl, hs, rfl⟩⟩
  intro part _
  obtain ⟨s, hs⟩ := htotal part
  exact ⟨s, s, hs, rfl⟩

/-- Floats that stand for integers have exact sums if these integers are small and not too many. -/
theorem exact_binary64_of_int {vs : List Float} (bound : Nat)
    (hvalues : ∀ v ∈ vs, ∃ n : Int, Binary64.number v = some (n : ℚ) ∧ n.natAbs ≤ bound)
    (hfew : vs.length * bound < 2 ^ 53) : binary64.Exact vs := by
  have htotal : ∀ part : List Float, (∀ v ∈ part, v ∈ vs) →
      ∃ n : Int, binary64.total part = some (n : ℚ) ∧ n.natAbs ≤ part.length * bound := by
    intro part hpart
    induction part with
    | nil => exact ⟨0, congrArg some Int.cast_zero.symm, Nat.zero_le _⟩
    | cons v part ih =>
        obtain ⟨n, hn, hnle⟩ := ih fun w hw => hpart w (List.mem_cons_of_mem v hw)
        obtain ⟨k, hk, hkle⟩ := hvalues v (hpart v List.mem_cons_self)
        refine ⟨k + n, total_cons_eq_some.mpr ⟨k, n, hk, hn, (Int.cast_add k n).symm⟩, ?_⟩
        rw [List.length_cons, Nat.succ_mul]
        omega
  intro part hpart
  obtain ⟨n, hn, hnle⟩ := htotal part fun v hv => hpart.subset hv
  have hlength : part.length * bound ≤ vs.length * bound :=
    Nat.mul_le_mul_right bound hpart.length_le
  obtain ⟨z, hz⟩ := Binary64.exists_number_eq_int (n := n) (by omega)
  exact ⟨z, n, hn, hz⟩

end Interpretation

/-! ## One value comes or goes -/

namespace RunningTotal

section Removal

variable {ν : Type} [OfNat ν 0] [Sub ν] {t : RunningTotal ν}

theorem remove_of_count_eq_one (h : t.count = 1) (v : ν) : t.remove v = .empty := by
  rw [remove, h]
  rfl

theorem remove_of_one_lt_count (h : 1 < t.count) (v : ν) :
    t.remove v = ⟨t.sum - v, t.count - 1⟩ := by
  have hne : t.count - 1 ≠ 0 := by omega
  rw [remove]
  exact congrArg (RunningTotal.mk · (t.count - 1)) (if_neg hne)

theorem count_removeAll (t : RunningTotal ν) (gone : List ν) :
    (gone.foldl remove t).count = t.count - gone.length := by
  induction gone generalizing t with
  | nil => rfl
  | cons v gone ih =>
      rw [List.foldl_cons, ih, List.length_cons, Nat.add_comm, Nat.sub_add_eq]
      rfl

end Removal

variable {ν E : Type} [OfNat ν 0] [Add ν] [Sub ν] [AddCommGroup E] {d : Interpretation ν E}
  {t : RunningTotal ν} {v : ν} {vs gone kept : List ν}

/-- The total is that of a list of values, and its sum stands for their exact sum. -/
structure Follows (d : Interpretation ν E) (t : RunningTotal ν) (vs : List ν) : Prop where
  count : t.count = vs.length
  sum : ∃ s, d.total vs = some s ∧ d.value t.sum = some s
  settled : d.IsSettled t.sum

theorem follows_empty : (empty : RunningTotal ν).Follows d [] where
  count := rfl
  sum := ⟨0, rfl, d.value_zero⟩
  settled := d.isSettled_zero

theorem Follows.record (h : t.Follows d vs) (hfits : d.Fits (vs ++ [v])) :
    (t.record v).Follows d (vs ++ [v]) := by
  obtain ⟨s, hs, hsum⟩ := h.sum
  obtain ⟨z, s', hs', hz⟩ := hfits
  obtain ⟨b, a, hb, ha, rfl⟩ := Interpretation.total_concat_eq_some.mp hs'
  obtain rfl : s = b := Option.some.inj (hs.symm.trans hb)
  obtain ⟨hsettled, hrecorded⟩ := d.add h.settled hsum ha hz
  refine ⟨?_, ⟨s + a, hs', hrecorded⟩, hsettled⟩
  rw [List.length_append]
  exact congrArg (· + 1) h.count

theorem Follows.remove (h : t.Follows d (v :: vs)) (hfits : d.Fits vs) :
    (t.remove v).Follows d vs := by
  cases vs with
  | nil =>
      rw [remove_of_count_eq_one h.count]
      exact follows_empty
  | cons w vs =>
      obtain ⟨s, hs, hsum⟩ := h.sum
      obtain ⟨a, b, ha, hb, rfl⟩ := Interpretation.total_cons_eq_some.mp hs
      obtain ⟨z, s', hs', hz⟩ := hfits
      obtain rfl : b = s' := Option.some.inj (hb.symm.trans hs')
      have hback : a + b - a = b := add_sub_cancel_left a b
      obtain ⟨hsettled, hremoved⟩ := d.sub h.settled hsum ha (hback ▸ hz)
      rw [hback] at hremoved
      have hcount : t.count = vs.length + 2 := h.count
      rw [remove_of_one_lt_count (by omega)]
      exact ⟨congrArg (· - 1) hcount, ⟨b, hb, hremoved⟩, hsettled⟩

theorem Follows.removeAll (h : t.Follows d (gone ++ kept)) (hexact : d.Exact (gone ++ kept)) :
    (gone.foldl RunningTotal.remove t).Follows d kept := by
  induction gone generalizing t with
  | nil => exact h
  | cons v gone ih =>
      have hrest : d.Exact (gone ++ kept) := hexact.of_infix (List.suffix_cons v _).isInfix
      exact ih (h.remove hrest.fits) hrest

end RunningTotal

/-! ## What each operation does to the total and to the window -/

namespace MovingAverage

inductive Op (ν : Type) where
  | add (v : ν)
  | get
  | len

/-- Operations in order, each with what the clock shows while it runs. -/
abbrev Timeline (ν : Type) := List (ClockReadings × Op ν)

section Window

variable {ν : Type}

/-- What an operation makes of the values before anything is evicted. -/
def Op.entered (op : Op ν) (vs : List ν) : List ν :=
  match op with
  | add v => vs ++ [v]
  | get => vs
  | len => vs

/-- The values added, oldest first. -/
def Timeline.added (line : Timeline ν) : List ν := line.foldl (fun vs e => e.2.entered vs) []

/-- The values that an operation evicts. -/
def leavingOn (a : MovingAverage ν) (c : ClockReadings) : Op ν → List ν
  | .add v => (a.window.addOn c v).2
  | .get => (a.window.evictOn c).2
  | .len => (a.window.evictOn c).2

theorem Timeline.added_append (line : Timeline ν) (c : ClockReadings) (op : Op ν) :
    added (line ++ [(c, op)]) = op.entered line.added := by
  rw [added, List.foldl_append]
  rfl

theorem Op.prefix_entered (op : Op ν) (vs : List ν) : vs <+: op.entered vs := by
  cases op with
  | add v => exact List.prefix_append vs [v]
  | get => exact List.prefix_refl vs
  | len => exact List.prefix_refl vs

theorem Op.suffix_entered {us vs : List ν} (op : Op ν) (h : us <:+ vs) :
    op.entered us <:+ op.entered vs := by
  cases op with
  | add v =>
      obtain ⟨gone, rfl⟩ := h
      exact ⟨gone, (List.append_assoc gone us [v]).symm⟩
  | get => exact h
  | len => exact h

/-- What an operation makes of the total before anything is evicted. -/
def Op.recorded [Add ν] (op : Op ν) (t : RunningTotal ν) : RunningTotal ν :=
  match op with
  | add v => t.record v
  | get => t
  | len => t

theorem count_recorded [Add ν] {a : MovingAverage ν} (op : Op ν)
    (h : a.total.count = a.window.values.length) :
    (op.recorded a.total).count = (op.entered a.window.values).length := by
  cases op with
  | add v =>
      rw [Op.entered, List.length_append]
      exact congrArg (· + 1) h
  | get => exact h
  | len => exact h

end Window

variable {ν : Type} [OfNat ν 0] [Add ν] [Sub ν]

def performOn (a : MovingAverage ν) (c : ClockReadings) : Op ν → MovingAverage ν
  | .add v => a.addOn c v
  | .get => a.evictOn c
  | .len => a.evictOn c

/-- The average over a window of a length after some operations. -/
def resultOn (length : Duration) (line : Timeline ν) : MovingAverage ν :=
  line.foldl (fun a e => a.performOn e.1 e.2) (.empty length)

theorem resultOn_append (length : Duration) (line : Timeline ν) (c : ClockReadings) (op : Op ν) :
    resultOn length (line ++ [(c, op)]) = (resultOn length line).performOn c op := by
  rw [resultOn, List.foldl_append]
  rfl

variable (a : MovingAverage ν) (c : ClockReadings) (op : Op ν)

theorem total_performOn :
    (a.performOn c op).total = (a.leavingOn c op).foldl .remove (op.recorded a.total) := by
  cases op <;> rfl

theorem length_performOn : (a.performOn c op).window.length = a.window.length := by
  cases op <;> rfl

/-- The values that leave and those that stay are together those that the operation finds. -/
theorem leavingOn_append_values :
    a.leavingOn c op ++ (a.performOn c op).window.values = op.entered a.window.values := by
  have hcut : ∀ entries : List (Timed ν),
      let parts :=
        EvictingQueue.cutEach (fun n => SlidingWindow.isStale a.window.length (c.look n)) entries
      parts.1.map Timed.value ++ parts.2.map Timed.value = entries.map Timed.value := by
    intro entries parts
    rw [← List.map_append, EvictingQueue.cutEach_append]
  cases op with
  | add v => exact (hcut (a.window.entries ++ [⟨v, c.entry⟩])).trans List.map_append
  | get => exact hcut a.window.entries
  | len => exact hcut a.window.entries

/-- A value that is added stays unless the clock, when it comes to this value, has moved on by more
than the window; what leaves has been held before. -/
theorem addOn_keeps_value (v : ν) (h : c.look a.window.size - c.entry ≤ a.window.length) :
    ∃ kept, a.window.values = a.leavingOn c (.add v) ++ kept.map Timed.value ∧
      (a.performOn c (.add v)).window.entries = kept ++ [⟨v, c.entry⟩] := by
  let mayGo := fun n (t : Timed ν) => SlidingWindow.isStale a.window.length (c.look n) t
  have hstays : mayGo a.window.entries.length ⟨v, c.entry⟩ = false :=
    decide_eq_false (Nat.not_lt.mpr h)
  have hkept : (a.performOn c (.add v)).window.entries =
      (EvictingQueue.cutEach mayGo a.window.entries).2 ++ [⟨v, c.entry⟩] :=
    congrArg Prod.snd (EvictingQueue.cutEach_concat hstays)
  refine ⟨_, ?_, hkept⟩
  have hsplit := leavingOn_append_values a c (.add v)
  rw [SlidingWindow.values, hkept, List.map_append, ← List.append_assoc] at hsplit
  exact (List.append_cancel_right hsplit).symm

theorem count_performOn (h : a.total.count = a.window.values.length) :
    (a.performOn c op).total.count = (a.performOn c op).window.values.length := by
  rw [total_performOn, RunningTotal.count_removeAll, count_recorded op h,
    ← leavingOn_append_values a c op, List.length_append, Nat.add_sub_cancel_left]

/-- Before each removal the count is positive. -/
theorem count_pos_before_removal (h : a.total.count = a.window.values.length) {n : Nat}
    (hn : n < (a.leavingOn c op).length) :
    0 < (((a.leavingOn c op).take n).foldl .remove (op.recorded a.total)).count := by
  have hentered := congrArg List.length (leavingOn_append_values a c op)
  rw [List.length_append] at hentered
  rw [RunningTotal.count_removeAll, count_recorded op h, List.length_take]
  omega

section Exact

variable {E : Type} [AddCommGroup E] {d : Interpretation ν E} {a c op}

theorem follows_recorded (h : a.total.Follows d a.window.values)
    (hexact : d.Exact (op.entered a.window.values)) :
    (op.recorded a.total).Follows d (op.entered a.window.values) := by
  cases op with
  | add v => exact h.record hexact.fits
  | get => exact h
  | len => exact h

theorem follows_performOn (h : a.total.Follows d a.window.values)
    (hexact : d.Exact (op.entered a.window.values)) :
    (a.performOn c op).total.Follows d (a.performOn c op).window.values := by
  have hrecorded := follows_recorded h hexact
  rw [← leavingOn_append_values a c op] at hrecorded hexact
  rw [total_performOn]
  exact hrecorded.removeAll hexact

end Exact

/-! ## Runs -/

theorem length_resultOn (length : Duration) (line : Timeline ν) :
    (resultOn length line).window.length = length := by
  induction line using List.reverseRecOn with
  | nil => rfl
  | append_singleton line e ih =>
      rw [resultOn_append, length_performOn]
      exact ih

theorem values_suffix_added (length : Duration) (line : Timeline ν) :
    (resultOn length line).window.values <:+ line.added := by
  induction line using List.reverseRecOn with
  | nil => exact List.suffix_refl []
  | append_singleton line e ih =>
      rw [resultOn_append, Timeline.added_append]
      refine List.IsSuffix.trans ?_ (Op.suffix_entered e.2 ih)
      exact ⟨_, leavingOn_append_values (resultOn length line) e.1 e.2⟩

theorem count_resultOn (length : Duration) (line : Timeline ν) :
    (resultOn length line).total.count = (resultOn length line).window.values.length := by
  induction line using List.reverseRecOn with
  | nil => rfl
  | append_singleton line e ih =>
      rw [resultOn_append]
      exact count_performOn _ e.1 e.2 ih

theorem follows_resultOn {E : Type} [AddCommGroup E] {d : Interpretation ν E} (length : Duration)
    {line : Timeline ν} (hexact : d.Exact line.added) :
    (resultOn length line).total.Follows d (resultOn length line).window.values := by
  induction line using List.reverseRecOn with
  | nil => exact RunningTotal.follows_empty
  | append_singleton line e ih =>
      rw [Timeline.added_append] at hexact
      rw [resultOn_append]
      refine follows_performOn (ih (hexact.of_infix (Op.prefix_entered e.2 _).isInfix)) ?_
      exact hexact.of_infix (Op.suffix_entered e.2 (values_suffix_added length line)).isInfix

theorem mean_resultOn [Div ν] (ofNat : Nat → ν) (length : Duration) (line : Timeline ν) :
    (resultOn length line).mean ofNat =
      if (resultOn length line).window.values = [] then 0
      else (resultOn length line).total.sum /
        ofNat (resultOn length line).window.values.length := by
  simp only [mean, count_resultOn, List.length_eq_zero_iff]

/-- After each operation, on any clock, the count is the number of held values, and no removal on
the way finds it at zero.  A value that is added stays, and what leaves has been held before, if the
clock has moved on by no more than the window when the eviction comes to that value, as when it
stands still.  The sum stands for the exact sum of the held values if the values added have exact
sums, and so the average, which an operation `get` reads off after its eviction, is the quotient of
that sum and the number of held values, and zero if none is held. -/
theorem count_and_sum_of_held [Div ν] (ofNat : Nat → ν) (length : Duration) (line : Timeline ν)
    (c : ClockReadings) (op : Op ν) :
    let before := resultOn length line
    let after := resultOn length (line ++ [(c, op)])
    let leaving := before.leavingOn c op
    after.total.count = after.size ∧
      (∀ n < leaving.length,
        0 < ((leaving.take n).foldl RunningTotal.remove (op.recorded before.total)).count) ∧
      (∀ v, op = .add v → c.look before.size - c.entry ≤ length →
        ∃ kept, before.window.values = leaving ++ kept.map Timed.value ∧
          after.window.entries = kept ++ [⟨v, c.entry⟩]) ∧
      (∀ {E : Type} [AddCommGroup E] (d : Interpretation ν E),
        d.Exact (line ++ [(c, op)] : Timeline ν).added →
          ∃ s, d.total after.window.values = some s ∧ d.value after.total.sum = some s) ∧
      after.mean ofNat =
        if after.window.values = [] then 0 else after.total.sum / ofNat after.size := by
  intro before after leaving
  have hsize : after.size = after.window.values.length := (List.length_map _).symm
  have hcount : before.total.count = before.window.values.length := count_resultOn length line
  refine ⟨?_, ?_, ?_, ?_, ?_⟩
  · rw [hsize]
    exact count_resultOn length _
  · intro n hn
    exact count_pos_before_removal before c op hcount hn
  · rintro v rfl hfresh
    have hlength : before.window.length = length := length_resultOn length line
    rw [← hlength] at hfresh
    obtain ⟨kept, hleft, hkept⟩ := addOn_keeps_value before c v hfresh
    refine ⟨kept, hleft, ?_⟩
    rw [← hkept]
    exact congrArg (·.window.entries) (resultOn_append length line c (.add v))
  · intro E _ d hexact
    exact (follows_resultOn length hexact).sum
  · rw [hsize]
    exact mean_resultOn ofNat length _

/-- The clock is set back after the first value, so the second is stale before the first may go. -/
def Timeline.turned {ν : Type} [OfNat ν 3] [OfNat ν 8] [OfNat ν 5] : Timeline ν :=
  [(.still (.ofSeconds 9), .add 3), (.still (.ofSeconds 4), .add 8),
    (.still (.ofSeconds 12), .add 5)]

/-- The next addition evicts both of these, on a clock that moves on by a second once the new value
has entered.  The sum is the same in floating-point arithmetic and in that of rational numbers. -/
theorem count_and_sum_of_held_turned :
    let c : ClockReadings := ⟨.ofSeconds 14, fun _ => .ofSeconds 15⟩
    let before := resultOn (.ofSeconds 5) (Timeline.turned : Timeline Float)
    let after := resultOn (.ofSeconds 5) ((Timeline.turned : Timeline Float) ++ [(c, .add 2)])
    let exact := resultOn (.ofSeconds 5) ((Timeline.turned : Timeline ℚ) ++ [(c, .add 2)])
    let leaving := before.leavingOn c (.add 2)
    Interpretation.binary64.Exact [3, 8, 5, 2] ∧ leaving = [3, 8] ∧ after.total.count = 2 ∧
      0 < ((leaving.take 1).foldl RunningTotal.remove (before.total.record 2)).count ∧
      c.look before.size - c.entry ≤ .ofSeconds 5 ∧
      (∃ kept, before.window.values = leaving ++ kept.map Timed.value ∧
        after.window.entries = kept ++ [⟨2, .ofSeconds 14⟩]) ∧
      Interpretation.binary64.value after.total.sum = some 7 ∧ after.mean Float.ofNat = 3.5 ∧
      exact.total.sum = 7 := by
  intro c before after exact leaving
  have hexact : Interpretation.binary64.Exact [3, 8, 5, 2] := by
    refine Interpretation.exact_binary64_of_int 8 ?_ (by decide)
    intro v hv
    simp only [List.mem_cons, List.not_mem_nil, or_false] at hv
    rcases hv with rfl | rfl | rfl | rfl
    · exact ⟨3, by decide +kernel, by decide⟩
    · exact ⟨8, by decide +kernel, by decide⟩
    · exact ⟨5, by decide +kernel, by decide⟩
    · exact ⟨2, by decide +kernel, by decide⟩
  have hleaving : leaving = [3, 8] := by decide +kernel
  have htwo : after.size = 2 := by decide +kernel
  have hfresh : c.look before.size - c.entry ≤ .ofSeconds 5 := by decide +kernel
  obtain ⟨hcount, hpos, hkept, hsum, hmean⟩ :=
    count_and_sum_of_held Float.ofNat (.ofSeconds 5) Timeline.turned c (.add 2)
  obtain ⟨s, htotal, hvalue⟩ := hsum Interpretation.binary64 hexact
  have hseven : Interpretation.binary64.total after.window.values = some 7 := by decide +kernel
  obtain rfl : s = 7 := Option.some.inj (htotal.symm.trans hseven)
  have hquotient :
      (if after.window.values = [] then 0 else after.total.sum / Float.ofNat after.size) = 3.5 := by
    decide +kernel
  obtain ⟨-, -, -, hidentity, -⟩ := count_and_sum_of_held (fun n => (n : ℚ)) (.ofSeconds 5)
    Timeline.turned c (.add 2)
  obtain ⟨r, hr, hsame⟩ := hidentity (Interpretation.identity ℚ) (Interpretation.exact_identity _)
  have hseven' : (Interpretation.identity ℚ).total exact.window.values = some 7 := by
    decide +kernel
  have hfirst : 0 < ((leaving.take 1).foldl RunningTotal.remove (before.total.record 2)).count := by
    refine hpos 1 ?_
    show 1 < leaving.length
    rw [hleaving]
    decide
  exact ⟨hexact, hleaving, hcount.trans htwo, hfirst, hfresh, hkept 2 rfl hfresh, hvalue,
    hmean.trans hquotient, Option.some.inj (hsame.trans (hr.symm.trans hseven'))⟩

/-- In a window without length it is enough if the clock moves on by a nanosecond once a value has
entered: the addition evicts its own value. -/
theorem added_value_leaves_at_once :
    (¬ ∀ (length : Duration) (line : Timeline Float) (c : ClockReadings) (v : Float),
      ∃ kept, (resultOn length (line ++ [(c, .add v)])).window.entries =
        kept ++ [⟨v, c.entry⟩]) ∧
    let c : ClockReadings := ⟨.zero, fun _ => .ofNanos 1⟩
    (resultOn .zero []).leavingOn c (.add (1 : Float)) = [1] ∧
      (resultOn .zero [(c, .add (1 : Float))]).window.entries.length = 0 := by
  have hnone : (resultOn .zero [(⟨.zero, fun _ => .ofNanos 1⟩,
      .add (1 : Float))]).window.entries.length = 0 := by
    decide +kernel
  refine ⟨?_, by decide +kernel, hnone⟩
  intro hstays
  obtain ⟨kept, hkept⟩ := hstays .zero [] ⟨.zero, fun _ => .ofNanos 1⟩ 1
  have hlength := congrArg List.length hkept
  rw [List.length_append] at hlength
  exact absurd (hlength.symm.trans hnone) (Nat.succ_ne_zero kept.length)

end MovingAverage

end WindowedStats
