import WindowedStats.Proofs.RunningTotals

/-!
# What a value leaves behind

A value that has left the window should show in the average no longer: what `get` answers should be
a matter of the values still held.  The running total makes that true in two cases only.

* As soon as the window has been empty, everything before is forgotten, in any arithmetic: the
  removal of the last value sets the sum to zero (`result_eq_empty`).
* As long as the sums are exact, subtraction undoes addition, and two runs that end with the same
  values end with the same average (`sum_eq_of_values_eq`).

Floating-point sums are not always exact.  Between two moments at which the window is empty a
rounding error stays in the sum, and an infinity or a NaN stays for good: subtracting it again gives
a NaN (`number_sum_after`).  `gone_values_show` collects the three, and
`average_of_one_is_not_that_one` shows two runs that both end with the number one alone in the
window, one of which had held a NaN before, or a number so large that adding one to it changes
nothing.
-/

namespace WindowedStats

/-! ## Emptied totals -/

namespace RunningTotal

variable {ν : Type} [OfNat ν 0] [Sub ν] {t : RunningTotal ν}

theorem remove_eq_empty {v : ν} (h : (t.remove v).count = 0) : t.remove v = .empty := by
  have hcount : t.count - 1 = 0 := h
  rw [remove, hcount]
  rfl

theorem removeAll_eq_empty {gone : List ν} (ht : t.count = 0 → t = .empty)
    (h : (gone.foldl remove t).count = 0) : gone.foldl remove t = .empty := by
  induction gone generalizing t with
  | nil => exact ht h
  | cons v gone ih => exact ih remove_eq_empty h

end RunningTotal

/-! ## Clocks that stand still while an operation runs -/

namespace MovingAverage

section Still

variable {ν : Type}

/-- Operations in order, each with the instant that the clock shows at it. -/
abbrev Run (ν : Type) := List (Duration × Op ν)

/-- The values added, oldest first. -/
def Run.added (run : Run ν) : List ν := run.foldl (fun vs e => e.2.entered vs) []

/-- The run on a clock that stands still during each operation. -/
def Run.still (run : Run ν) : Timeline ν := run.map fun e => (.still e.1, e.2)

theorem Run.added_still (run : Run ν) : run.still.added = run.added := List.foldl_map

variable [OfNat ν 0] [Add ν] [Sub ν]

def perform (a : MovingAverage ν) (now : Duration) : Op ν → MovingAverage ν
  | .add v => a.add now v
  | .get => a.evict now
  | .len => a.evict now

/-- The average over a window of a length after a run. -/
def result (length : Duration) (run : Run ν) : MovingAverage ν :=
  run.foldl (fun a e => a.perform e.1 e.2) (.empty length)

theorem performOn_still (a : MovingAverage ν) (now : Duration) (op : Op ν) :
    a.performOn (.still now) op = a.perform now op := by
  cases op with
  | add v => exact a.addOn_still now v
  | get => exact a.evictOn_still now
  | len => exact a.evictOn_still now

theorem resultOn_still (length : Duration) (run : Run ν) :
    resultOn length run.still = result length run := by
  rw [resultOn, Run.still, List.foldl_map]
  simp only [performOn_still, result]

theorem result_append (length : Duration) (run : Run ν) (now : Duration) (op : Op ν) :
    result length (run ++ [(now, op)]) = (result length run).perform now op := by
  rw [result, List.foldl_append]
  rfl

theorem total_perform (a : MovingAverage ν) (now : Duration) (op : Op ν) :
    (a.perform now op).total =
      (a.leavingOn (.still now) op).foldl .remove (op.recorded a.total) := by
  rw [← performOn_still, total_performOn]

theorem length_result (length : Duration) (run : Run ν) :
    (result length run).window.length = length := by
  rw [← resultOn_still, length_resultOn]

theorem count_result (length : Duration) (run : Run ν) :
    (result length run).total.count = (result length run).window.values.length := by
  rw [← resultOn_still, count_resultOn]

theorem mean_result [Div ν] (ofNat : Nat → ν) (length : Duration) (run : Run ν) :
    (result length run).mean ofNat =
      if (result length run).window.values = [] then 0
      else (result length run).total.sum / ofNat (result length run).window.values.length := by
  rw [← resultOn_still, mean_resultOn]

theorem follows_result {E : Type} [AddCommGroup E] {d : Interpretation ν E} (length : Duration)
    {run : Run ν} (hexact : d.Exact run.added) :
    (result length run).total.Follows d (result length run).window.values := by
  rw [← resultOn_still]
  exact follows_resultOn length (run.added_still.symm ▸ hexact)

end Still

section Emptied

variable {ν : Type} [OfNat ν 0] [Add ν] [Sub ν]

theorem total_perform_eq_empty {a : MovingAverage ν} (ha : a.total.count = 0 → a.total = .empty)
    {now : Duration} {op : Op ν} (h : (a.perform now op).total.count = 0) :
    (a.perform now op).total = .empty := by
  rw [total_perform] at h ⊢
  refine RunningTotal.removeAll_eq_empty ?_ h
  cases op with
  | add v => exact fun hrecorded => absurd hrecorded (Nat.succ_ne_zero a.total.count)
  | get => exact ha
  | len => exact ha

theorem total_result_eq_empty (length : Duration) {run : Run ν}
    (h : (result length run).total.count = 0) : (result length run).total = .empty := by
  induction run using List.reverseRecOn with
  | nil => rfl
  | append_singleton run e ih =>
      rw [result_append] at h ⊢
      exact total_perform_eq_empty ih h

/-- An average without values has no past. -/
theorem result_eq_empty {length : Duration} {run : Run ν}
    (h : (result length run).window.values = []) : result length run = .empty length := by
  have hcount : (result length run).total.count = 0 := by rw [count_result, h]; rfl
  have htotal := total_result_eq_empty length hcount
  have hentries : (result length run).window.entries = [] := List.map_eq_nil_iff.mp h
  have hlength := length_result length run
  cases hresult : result length run with
  | mk window total =>
      rw [hresult] at htotal hentries hlength
      cases window with
      | mk l queue =>
          cases queue with
          | mk entries =>
              obtain rfl : total = .empty := htotal
              obtain rfl : entries = [] := hentries
              obtain rfl : l = length := hlength
              rfl

theorem result_append_run (length : Duration) (run rest : Run ν) :
    result length (run ++ rest) =
      rest.foldl (fun a e => a.perform e.1 e.2) (result length run) := by
  rw [result, List.foldl_append]
  rfl

end Emptied

/-! ## Exact sums -/

theorem sum_eq_of_values_eq {ν E : Type} [OfNat ν 0] [Add ν] [Sub ν] [AddCommGroup E]
    {d : Interpretation ν E} {length : Duration} {run other : Run ν} (hrun : d.Exact run.added)
    (hother : d.Exact other.added)
    (hsame : (result length run).window.values = (result length other).window.values) :
    (result length run).total.sum = (result length other).total.sum := by
  have h := follows_result length hrun
  have h' := follows_result length hother
  obtain ⟨s, hs, hsum⟩ := h.sum
  obtain ⟨s', hs', hsum'⟩ := h'.sum
  rw [hsame] at hs
  obtain rfl : s = s' := Option.some.inj (hs.symm.trans hs')
  exact d.eq_of_value h.settled h'.settled hsum hsum'

/-! ## Infinities and NaN -/

section Lasting

open Binary64 (number)

theorem number_sum_removeAll {t : RunningTotal Float} {gone : List Float}
    (hsum : number t.sum = none) (hcount : gone.length < t.count) :
    number (gone.foldl RunningTotal.remove t).sum = none := by
  induction gone generalizing t with
  | nil => exact hsum
  | cons v gone ih =>
      rw [List.length_cons] at hcount
      have hremove := RunningTotal.remove_of_one_lt_count (t := t) (by omega) v
      rw [List.foldl_cons, hremove]
      refine ih (Binary64.number_sub_eq_none (.inl hsum)) ?_
      show gone.length < t.count - 1
      omega

theorem number_sum_recorded {t : RunningTotal Float} (op : Op Float)
    (h : number t.sum = none ∨ ∃ v, op = .add v ∧ number v = none) :
    number (op.recorded t).sum = none := by
  cases op with
  | add v =>
      refine Binary64.number_add_eq_none (h.imp_right ?_)
      rintro ⟨w, hop, hw⟩
      cases hop
      exact hw
  | get =>
      rcases h with h | ⟨v, hop, -⟩
      · exact h
      · cases hop
  | len =>
      rcases h with h | ⟨v, hop, -⟩
      · exact h
      · cases hop

variable {a : MovingAverage Float} {now : Duration} {op : Op Float}

theorem number_sum_perform (hcount : a.total.count = a.window.values.length)
    (hsum : number a.total.sum = none ∨ ∃ v, op = .add v ∧ number v = none)
    (hheld : (a.perform now op).window.values ≠ []) :
    number (a.perform now op).total.sum = none := by
  rw [total_perform]
  refine number_sum_removeAll (number_sum_recorded op hsum) ?_
  have hlength := congrArg List.length (leavingOn_append_values a (.still now) op)
  rw [List.length_append, performOn_still] at hlength
  have hpos := List.length_pos_iff.mpr hheld
  rw [count_recorded op hcount]
  omega

theorem values_perform_add_ne_nil (a : MovingAverage Float) (now : Duration) (v : Float) :
    (a.perform now (.add v)).window.values ≠ [] := by
  have hfresh : now - now ≤ a.window.length := by simp [Duration.le_def]
  obtain ⟨kept, -, hentries⟩ := addOn_keeps_value a (.still now) v hfresh
  rw [← performOn_still, SlidingWindow.values, hentries]
  simp

theorem number_sum_after (length : Duration) (run : Run Float) (now : Duration) {v : Float}
    (hv : number v = none) {rest : Run Float}
    (hheld : ∀ part, part <+: rest →
      (result length (run ++ (now, .add v) :: part)).window.values ≠ []) :
    number (result length (run ++ (now, .add v) :: rest)).total.sum = none := by
  induction rest using List.reverseRecOn with
  | nil =>
      rw [result_append]
      exact number_sum_perform (count_result length run) (.inr ⟨v, rfl, hv⟩)
        (values_perform_add_ne_nil _ now v)
  | append_singleton rest e ih =>
      have hbefore := ih fun part hpart => hheld part (hpart.trans (List.prefix_append rest [e]))
      have hlast := hheld _ (List.prefix_refl _)
      have hcons :
          run ++ (now, .add v) :: (rest ++ [e]) = (run ++ (now, .add v) :: rest) ++ [e] := by
        simp
      rw [hcons, result_append] at hlast ⊢
      exact number_sum_perform (count_result length _) (.inl hbefore) hlast

end Lasting

/-! ## What still shows -/

/-- The clock never goes back during the run. -/
def Run.Forward {ν : Type} (run : Run ν) : Prop := run.Pairwise fun e e' => e.1 ≤ e'.1

instance {ν : Type} (run : Run ν) : Decidable run.Forward :=
  inferInstanceAs (Decidable (run.Pairwise fun e e' => e.1 ≤ e'.1))

/-- Once the window has been empty, all that was added before is forgotten.  While the sums are
exact, two runs that end with the same values held end with the same average.  But an infinity or a
NaN shows in every average as long as no operation leaves the window empty, whether or not it is
still held. -/
theorem gone_values_show {ν E : Type} [OfNat ν 0] [Add ν] [Sub ν] [Div ν] [AddCommGroup E]
    (ofNat : Nat → ν) (length : Duration) :
    (∀ run : Run ν, (result length run).window.values = [] →
      ∀ rest : Run ν, result length (run ++ rest) = result length rest) ∧
    (∀ (d : Interpretation ν E) (run other : Run ν), d.Exact run.added → d.Exact other.added →
      (result length run).window.values = (result length other).window.values →
        (result length run).mean ofNat = (result length other).mean ofNat) ∧
    ∀ (run rest : Run Float) (now : Duration) (v : Float), Binary64.number v = none →
      (∀ part, part <+: rest →
        (result length (run ++ (now, .add v) :: part)).window.values ≠ []) →
        Binary64.number ((result length (run ++ (now, .add v) :: rest)).mean Float.ofNat) =
          none := by
  refine ⟨?_, ?_, ?_⟩
  · intro run hempty rest
    rw [result_append_run, result_eq_empty hempty]
    rfl
  · intro d run other hrun hother hsame
    rw [mean_result, mean_result, hsame, sum_eq_of_values_eq hrun hother hsame]
  · intro run rest now v hv hheld
    rw [mean_result, if_neg (hheld rest (List.prefix_refl rest))]
    exact Binary64.number_div_eq_none (number_sum_after length run now hv hheld) _

/-- The average that `get` finds at an instant. -/
def readAt (length : Duration) (run : Run Float) (now : Duration) : MovingAverage Float :=
  result length (run ++ [(now, .get)])

/-- A value is followed by the number one after three seconds. -/
def Run.andThenOne (v : Float) : Run Float := [(.zero, .add v), (.ofSeconds 3, .add 1)]

/-- A window of five seconds holds only the one after six seconds and nothing after nine.  When the
one is left, a three that was held before has gone without a trace, and a NaN has not. -/
theorem gone_values_show_one :
    (readAt (.ofSeconds 5) (.andThenOne (0 / 0)) (.ofSeconds 9)).window.values = [] ∧
      readAt (.ofSeconds 5) (Run.andThenOne (0 / 0) ++ [(.ofSeconds 9, .get)]) (.ofSeconds 10) =
        readAt (.ofSeconds 5) [] (.ofSeconds 10) ∧
      (readAt (.ofSeconds 5) (.andThenOne 3) (.ofSeconds 6)).mean Float.ofNat =
        (result (.ofSeconds 5) [(.ofSeconds 3, .add 1)]).mean Float.ofNat ∧
      (readAt (.ofSeconds 5) (.andThenOne (0 / 0)) (.ofSeconds 6)).window.values = [1] ∧
      Binary64.number
        ((readAt (.ofSeconds 5) (.andThenOne (0 / 0)) (.ofSeconds 6)).mean Float.ofNat) = none := by
  obtain ⟨hforgotten, hexact, hlasting⟩ :=
    gone_values_show (E := ℚ) Float.ofNat (.ofSeconds 5)
  have hempty :
      (readAt (.ofSeconds 5) (.andThenOne (0 / 0)) (.ofSeconds 9)).window.values = [] := by
    decide +kernel
  have hthree : Interpretation.binary64.Exact [3, 1] := by
    refine Interpretation.exact_binary64_of_int 3 ?_ (by decide)
    intro v hv
    simp only [List.mem_cons, List.not_mem_nil, or_false] at hv
    rcases hv with rfl | rfl
    · exact ⟨3, by decide +kernel, by decide⟩
    · exact ⟨1, by decide +kernel, by decide⟩
  have hone : Interpretation.binary64.Exact [1] := hthree.of_infix (List.suffix_cons 3 [1]).isInfix
  have hheld : ∀ part ∈ List.inits ([(.ofSeconds 3, .add 1), (.ofSeconds 6, .get)] : Run Float),
      (result (.ofSeconds 5) ((.zero, .add (0 / 0)) :: part)).window.values ≠ [] := by
    decide +kernel
  refine ⟨hempty, hforgotten _ hempty _, ?_, by decide +kernel, ?_⟩
  · exact hexact Interpretation.binary64 _ _ hthree hone (by decide +kernel)
  · refine hlasting [] _ .zero (0 / 0) (by decide +kernel) ?_
    intro part hpart
    exact hheld part ((List.mem_inits part _).mpr hpart)

/-- The number one is held alone at each of these instants.  A number so large that adding one to it
changes nothing has swallowed the one, and a NaN that is gone shows in the average. -/
theorem average_of_one_is_not_that_one :
    (¬ ∀ (length : Duration) (run other : Run Float) (now : Duration),
      Run.Forward (run ++ [(now, .get)]) → Run.Forward (other ++ [(now, .get)]) →
        (readAt length run now).window.values = (readAt length other now).window.values →
          (readAt length run now).mean Float.ofNat = (readAt length other now).mean Float.ofNat) ∧
      (readAt (.ofSeconds 5) (.andThenOne 1e16) (.ofSeconds 6)).window.values = [1] ∧
      (readAt (.ofSeconds 5) (.andThenOne 1e16) (.ofSeconds 6)).mean Float.ofNat = 0 ∧
      (readAt (.ofSeconds 5) (.andThenOne (0 / 0)) (.ofSeconds 6)).window.values = [1] ∧
      Binary64.number
        ((readAt (.ofSeconds 5) (.andThenOne (0 / 0)) (.ofSeconds 6)).mean Float.ofNat) = none := by
  refine ⟨?_, by decide +kernel, by decide +kernel, by decide +kernel, by decide +kernel⟩
  intro hsame
  have hmean := hsame (.ofSeconds 5) (.andThenOne 1e16) (.andThenOne 3) (.ofSeconds 6)
    (by decide) (by decide) (by decide +kernel)
  exact absurd hmean (by decide +kernel)

end MovingAverage

end WindowedStats
