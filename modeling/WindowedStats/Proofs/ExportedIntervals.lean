import Mathlib.Data.List.Infix
import Mathlib.Data.List.Nodup
import Std.Data.String.ToInt
import WindowedStats.Proofs.HistogramValues

/-!
# The exported intervals

The three layouts of a distribution are three views of the same counts: the buckets themselves, the
intervals from the first mark, and the intervals up to the last one.

An exported object is built by adding one member after the other, and a key that is known already
takes the new value.  That no member is lost this way rests on the texts: an edge can be read off
its text (`edgeText_injective`), and the text of the lower edge off the text of an interval, since
no edge has an underscore in its text (`low_eq_of_intervalText_eq`).

A cumulative layout leaves out buckets before it adds up the counts.  This takes nothing away from
the counts that remain, because the bucket that is left out is the last one on the way
(`runningCounts_filter`): only the last mark can be the highest edge, and only the first one the
lowest.

`layouts_sum_up` gives the members of each layout, one for each mark with a value beyond it, and
adds up what is before an inner mark and what is from there on.
-/

namespace WindowedStats

/-! ## Texts of edges and intervals -/

theorem char_of_mem_repr {n : Int} {c : Char} (h : c ∈ n.repr.toList) : c = '-' ∨ c.isDigit := by
  have hdigit : ∀ k : Nat, c ∈ k.repr.toList → c.isDigit := by
    intro k hk
    rw [Nat.toList_repr] at hk
    exact Nat.isDigit_of_mem_toDigits (by decide) (by decide) hk
  rw [Int.repr_eq_if] at h
  split at h
  · exact .inr (hdigit _ h)
  · rw [String.toList_append, List.mem_append] at h
    exact h.imp List.mem_singleton.mp (hdigit _)

/-- The names of the extreme edges have a letter, and so they are no numbers. -/
theorem repr_ne_of_m_mem {n : Int} {name : String} (h : 'm' ∈ name.toList) : n.repr ≠ name := by
  rintro rfl
  exact absurd (char_of_mem_repr h) (by decide)

theorem edgeText_cases (edge : Int) :
    edge = lowestEdge ∧ edgeText edge = "min" ∨ edge = highestEdge ∧ edgeText edge = "max" ∨
      edgeText edge = edge.repr := by
  rw [edgeText]
  split
  · next h => exact .inl ⟨h, rfl⟩
  · split
    · next h => exact .inr (.inl ⟨h, rfl⟩)
    · exact .inr (.inr rfl)

/-- Different edges have different texts. -/
theorem edgeText_injective : Function.Injective edgeText := by
  intro e f h
  rcases edgeText_cases e with ⟨he, hte⟩ | ⟨he, hte⟩ | hte <;>
    rcases edgeText_cases f with ⟨hf, htf⟩ | ⟨hf, htf⟩ | htf <;>
    rw [hte, htf] at h
  · exact he.trans hf.symm
  · exact absurd h (by decide)
  · exact absurd h.symm (repr_ne_of_m_mem (by decide))
  · exact absurd h (by decide)
  · exact he.trans hf.symm
  · exact absurd h.symm (repr_ne_of_m_mem (by decide))
  · exact absurd h (repr_ne_of_m_mem (by decide))
  · exact absurd h (repr_ne_of_m_mem (by decide))
  · exact Int.repr_injective h

theorem underscore_notMem_edgeText (edge : Int) : '_' ∉ (edgeText edge).toList := by
  rcases edgeText_cases edge with ⟨-, h⟩ | ⟨-, h⟩ | h <;> rw [h]
  · decide
  · decide
  · intro hmem
    exact absurd (char_of_mem_repr hmem) (by decide)

/-- Up to the first underscore the text of an interval is that of its lower edge. -/
theorem takeWhile_intervalText (low high : Int) (label : String) :
    (intervalText low high ++ label).toList.takeWhile (· ≠ '_') = (edgeText low).toList := by
  have hedge : ∀ c ∈ (edgeText low).toList, decide (c ≠ '_') = true := by
    intro c hc
    refine decide_eq_true ?_
    rintro rfl
    exact underscore_notMem_edgeText low hc
  have hsplit : (intervalText low high ++ label).toList =
      (edgeText low).toList ++
        '_' :: ("to_".toList ++ ((edgeText high).toList ++ label.toList)) := by
    simp [intervalText, String.toList_append]
  rw [hsplit, List.takeWhile_append_of_pos hedge, List.takeWhile_cons_of_neg (by decide),
    List.append_nil]

/-- The lower edge can be read off the text of an interval, whatever follows the text. -/
theorem low_eq_of_intervalText_eq {low high low' high' : Int} {label label' : String}
    (h : intervalText low high ++ label = intervalText low' high' ++ label') : low = low' := by
  have htexts := takeWhile_intervalText low high label
  rw [h, takeWhile_intervalText] at htexts
  exact edgeText_injective (String.toList_injective htexts.symm)

theorem intervalText_right_injective (low : Int) (label : String) :
    Function.Injective fun high => intervalText low high ++ label := by
  intro e f h
  simp only [intervalText, String.append_left_inj, String.append_right_inj] at h
  exact edgeText_injective h

theorem intervalText_left_injective (high : Int) (label : String) :
    Function.Injective fun low => intervalText low high ++ label :=
  fun _ _ h => low_eq_of_intervalText_eq h

/-! ## Running counts -/

namespace Distribution

theorem runningCounts_append (seen : Nat) (bs cs : List Bucket) :
    runningCounts seen (bs ++ cs) =
      runningCounts seen bs ++ runningCounts (seen + sumCounts bs) cs := by
  induction bs generalizing seen with
  | nil => rfl
  | cons b rest ih => simp only [List.cons_append, runningCounts, ih, sumCounts, Nat.add_assoc]

/-- Where only the last bucket may be left out, this makes no difference to the counts of the
others. -/
theorem runningCounts_filter {p : Bucket → Bool} {bs : List Bucket} (seen : Nat)
    (hlast : bs.Pairwise fun b _ => p b = true) :
    runningCounts seen (bs.filter p) = (runningCounts seen bs).filter (p ·.1) := by
  induction bs generalizing seen with
  | nil => rfl
  | cons b rest ih =>
      obtain ⟨hb, hrest⟩ := List.pairwise_cons.mp hlast
      by_cases hp : p b = true
      · simp only [List.filter_cons_of_pos hp, runningCounts, ih _ hrest, List.filter_cons, hp,
          if_true]
      · cases rest with
        | nil => simp [runningCounts, hp]
        | cons c rest => exact absurd (hb c List.mem_cons_self) hp

theorem sumCounts_eq (bs : List Bucket) : sumCounts bs = (bs.map Bucket.count).sum := by
  induction bs with
  | nil => rfl
  | cons b rest ih => rw [sumCounts, ih, List.map_cons, List.sum_cons]

/-- The intervals from the first mark, if only the last bucket may have no upper limit. -/
theorem intervals_cumulativeLeft {d : Distribution} {first : Bucket}
    (hfirst : d.buckets.head? = some first)
    (hlimits : d.buckets.Pairwise fun b _ => b.high ≠ highestEdge) :
    d.intervals .cumulativeLeft =
      (((runningCounts 0 d.buckets).map fun x => (x.1.high, x.2)).filter
        (·.1 ≠ highestEdge)).map fun x => (intervalText first.low x.1, x.2) := by
  have hlimits' : d.buckets.Pairwise fun b _ => decide (b.high ≠ highestEdge) = true :=
    hlimits.imp fun h => decide_eq_true h
  simp only [intervals, hfirst, runningCounts_filter 0 hlimits', List.filter_map, List.map_map]
  rfl

/-- The intervals up to the last mark, if only the first bucket may have no lower limit. -/
theorem intervals_cumulativeRight {d : Distribution} {last : Bucket}
    (hlast : d.buckets.getLast? = some last)
    (hlimits : d.buckets.Pairwise fun _ b => b.low ≠ lowestEdge) :
    d.intervals .cumulativeRight =
      (((runningCounts 0 d.buckets.reverse).map fun x => (x.1.low, x.2)).filter
        (·.1 ≠ lowestEdge)).map fun x => (intervalText x.1 last.high, x.2) := by
  have hlimits' : d.buckets.reverse.Pairwise fun b _ => decide (b.low ≠ lowestEdge) = true :=
    List.pairwise_reverse.mpr (hlimits.imp fun h => decide_eq_true h)
  simp only [intervals, hlast, runningCounts_filter 0 hlimits', List.filter_map, List.map_map]
  rfl

/-! ## Members -/

/-- Members for some marks with their counts, each with the key that `key` makes of its mark. -/
def membersAt (key : Int → String) (entries : List (Int × Nat)) : Json.Members :=
  entries.map fun x => (key x.1, .ofNat x.2)

theorem nodup_keys_membersAt {key : Int → String} (hkey : Function.Injective key)
    {entries : List (Int × Nat)} (hmarks : (entries.map Prod.fst).Nodup) :
    ((membersAt key entries).map Prod.fst).Nodup := by
  have hkeys : (membersAt key entries).map Prod.fst = (entries.map Prod.fst).map key := by
    simp only [membersAt, List.map_map, Function.comp_def]
  rw [hkeys]
  exact hmarks.map hkey

theorem mem_membersAt {entries : List (Int × Nat)} {t : Int} {n : Nat} (h : (t, n) ∈ entries)
    (key : Int → String) : (key t, .ofNat n) ∈ membersAt key entries :=
  List.mem_map.mpr ⟨(t, n), h, rfl⟩

/-- Intervals that are told apart by one of their edges make a member each. -/
theorem members_eq_membersAt {d : Distribution} {layout : Layout} {text : Int → String}
    {entries : List (Int × Nat)} (h : d.intervals layout = entries.map fun x => (text x.1, x.2))
    {label : String} (htext : Function.Injective (text · ++ label))
    (hmarks : (entries.map Prod.fst).Nodup) :
    d.members layout label = membersAt (text · ++ label) entries := by
  have hlist : (d.intervals layout).map (fun x => (x.1 ++ label, Json.ofNat x.2)) =
      membersAt (text · ++ label) entries := by
    rw [h, List.map_map]
    rfl
  rw [members, hlist]
  exact Json.Members.ofList_of_nodup (nodup_keys_membersAt htext hmarks)

/-- The buckets are told apart by their lower edges. -/
theorem nodup_keys_separate {d : Distribution} (hlows : (d.buckets.map Bucket.low).Nodup)
    (label : String) :
    ((d.buckets.map fun b => (b.label ++ label, Json.ofNat b.count)).map Prod.fst).Nodup := by
  rw [List.map_map, List.Nodup, List.pairwise_map]
  refine (List.pairwise_map.mp hlows).imp ?_
  intro b c hlow hkey
  exact hlow (low_eq_of_intervalText_eq hkey)

theorem members_separate {d : Distribution} (hlows : (d.buckets.map Bucket.low).Nodup)
    (label : String) :
    d.members .separate label = d.buckets.map fun b => (b.label ++ label, .ofNat b.count) := by
  have hlist : (d.intervals .separate).map (fun x => (x.1 ++ label, Json.ofNat x.2)) =
      d.buckets.map fun b => (b.label ++ label, .ofNat b.count) := by
    rw [intervals, List.map_map]
    rfl
  rw [members, hlist]
  exact Json.Members.ofList_of_nodup (nodup_keys_separate hlows label)

end Distribution

/-! ## The buckets between ascending marks -/

/-- Some marks, each with the sum of the counts of the buckets before it. -/
def countsBefore (marks : List Int) (counts : List Nat) : List (Int × Nat) :=
  marks.zip (counts.inits.map List.sum)

/-- Some marks, each with the sum of the counts of the buckets from it on. -/
def countsFrom (marks : List Int) (counts : List Nat) : List (Int × Nat) :=
  marks.zip (counts.tails.map List.sum)

/-- The entries of the intervals from the first mark: one for each later mark with a value beyond
it. -/
def leftEntries (marks : List Int) (counts : List Nat) : List (Int × Nat) :=
  (countsBefore marks counts).tail.filter (·.1 ≠ highestEdge)

/-- The entries of the intervals up to the last mark: one for each mark before it with a value
beyond, the greatest first. -/
def rightEntries (marks : List Int) (counts : List Nat) : List (Int × Nat) :=
  ((countsFrom marks counts).dropLast.filter (·.1 ≠ lowestEdge)).reverse

section Entries

variable {marks : List Int} {counts : List Nat}

/-- Some of the marks with their sums: no mark comes twice. -/
theorem nodup_marks_of_sublist {sums : List Nat} {entries : List (Int × Nat)} (hmarks : marks.Nodup)
    (hlen : marks.length ≤ sums.length) (h : entries.Sublist (marks.zip sums)) :
    (entries.map Prod.fst).Nodup := by
  have hmap := h.map Prod.fst
  rw [List.map_fst_zip hlen] at hmap
  exact hmarks.sublist hmap

theorem nodup_leftEntries (hmarks : marks.Nodup) (hlen : marks.length = counts.length + 1) :
    ((leftEntries marks counts).map Prod.fst).Nodup := by
  refine nodup_marks_of_sublist hmarks ?_ (List.filter_sublist.trans (List.tail_sublist _))
  rw [List.length_map, List.length_inits, hlen]

theorem nodup_rightEntries (hmarks : marks.Nodup) (hlen : marks.length = counts.length + 1) :
    ((rightEntries marks counts).map Prod.fst).Nodup := by
  rw [rightEntries, List.map_reverse, List.nodup_reverse]
  refine nodup_marks_of_sublist hmarks ?_ (List.filter_sublist.trans (List.dropLast_sublist _))
  rw [List.length_map, List.length_tails, hlen]

/-- An inner mark has an entry in both, and the two add up to all counts. -/
theorem exists_entries (hasc : marks.Pairwise (· < ·))
    (hword : ∀ t ∈ marks, lowestEdge ≤ t ∧ t ≤ highestEdge)
    (hlen : marks.length = counts.length + 1) {t : Int} (ht : t ∈ marks.tail.dropLast) :
    ∃ m n, (t, m) ∈ leftEntries marks counts ∧ (t, n) ∈ rightEntries marks counts ∧
      m + n = counts.sum := by
  obtain ⟨i, hi, rfl⟩ := List.mem_iff_getElem.mp ht
  rw [List.length_dropLast, List.length_tail] at hi
  rw [List.getElem_dropLast, List.getElem_tail]
  -- There is a mark before it and one after it, so it is neither of the extreme edges.
  have hlow : marks[i + 1] ≠ lowestEdge := by
    have hprev := hword marks[i] (List.getElem_mem _)
    have hlt : marks[i] < marks[i + 1] := List.pairwise_iff_getElem.mp hasc i (i + 1) _ _ (by omega)
    omega
  have hhigh : marks[i + 1] ≠ highestEdge := by
    have hnext := hword marks[i + 2] (List.getElem_mem _)
    have hlt : marks[i + 1] < marks[i + 2] :=
      List.pairwise_iff_getElem.mp hasc (i + 1) (i + 2) _ _ (by omega)
    omega
  refine ⟨(counts.take (i + 1)).sum, (counts.drop (i + 1)).sum, ?_, ?_,
    List.sum_take_add_sum_drop counts (i + 1)⟩
  · refine List.mem_filter.mpr ⟨List.mem_iff_getElem.mpr ⟨i, ?_, ?_⟩, decide_eq_true hhigh⟩
    · simp only [countsBefore, List.length_tail, List.length_zip, List.length_map,
        List.length_inits]
      omega
    · simp [countsBefore]
  · refine List.mem_reverse.mpr (List.mem_filter.mpr
      ⟨List.mem_iff_getElem.mpr ⟨i + 1, ?_, ?_⟩, decide_eq_true hlow⟩)
    · simp only [countsFrom, List.length_dropLast, List.length_zip, List.length_map,
        List.length_tails]
      omega
    · simp [countsFrom]

end Entries

section Buckets

open WindowedStats.Distribution

/-- The counts on the way up, at the upper edge of each bucket. -/
theorem runningCounts_bucketsOf (seen : Nat) (a : Int) (rest vs : List Int) :
    (a :: rest).zip (((bucketsOf (a :: rest) vs).map Bucket.count).inits.map (seen + ·.sum)) =
      (a, seen) ::
        (runningCounts seen (bucketsOf (a :: rest) vs)).map fun x => (x.1.high, x.2) := by
  induction rest generalizing a seen with
  | nil => simp [bucketsOf, runningCounts]
  | cons b rest ih =>
      rw [bucketsOf_cons, runningCounts, List.map_cons, List.map_cons, ← ih]
      simp [Function.comp_def, Nat.add_assoc]

/-- The counts on the way down, at the lower edge of each bucket. -/
theorem runningCounts_bucketsOf_reverse (a : Int) (rest vs : List Int) {last : Int}
    (hlast : (a :: rest).getLast? = some last) :
    countsFrom (a :: rest) ((bucketsOf (a :: rest) vs).map Bucket.count) =
      ((runningCounts 0 (bucketsOf (a :: rest) vs).reverse).map fun x => (x.1.low, x.2)).reverse ++
        [(last, 0)] := by
  induction rest generalizing a with
  | nil =>
      cases hlast
      simp [bucketsOf, runningCounts, countsFrom]
  | cons b rest ih =>
      have hrest := ih b (List.getLast?_cons_cons.symm.trans hlast)
      have hsum : sumCounts (bucketsOf (b :: rest) vs).reverse =
          ((bucketsOf (b :: rest) vs).map Bucket.count).sum := by
        rw [sumCounts_eq, List.map_reverse, List.sum_reverse]
      rw [bucketsOf_cons, List.reverse_cons, runningCounts_append, hsum, List.map_append,
        List.reverse_append, List.append_assoc, ← hrest]
      simp [countsFrom, runningCounts, Nat.add_comm]

theorem length_counts_bucketsOf {marks : List Int} (hlen : 2 ≤ marks.length) (vs : List Int) :
    marks.length = ((bucketsOf marks vs).map Bucket.count).length + 1 := by
  simp only [bucketsOf, List.length_map, List.length_zip, List.length_tail]
  omega

variable {marks : List Int} {first last : Int}

theorem exists_eq_cons_cons (hlen : 2 ≤ marks.length) : ∃ a b rest, marks = a :: b :: rest := by
  match marks with
  | [] => cases hlen
  | [a] => exact absurd hlen (Nat.lt_irrefl 1)
  | a :: b :: rest => exact ⟨a, b, rest, rfl⟩

theorem members_cumulativeLeft (hlen : 2 ≤ marks.length) (hasc : marks.Pairwise (· < ·))
    (hword : ∀ t ∈ marks, t ≤ highestEdge) (hfirst : marks.head? = some first) (vs : List Int)
    (label : String) :
    (⟨bucketsOf marks vs⟩ : Distribution).members .cumulativeLeft label =
      membersAt (intervalText first · ++ label)
        (leftEntries marks ((bucketsOf marks vs).map Bucket.count)) := by
  have hlimits : (bucketsOf marks vs).Pairwise fun b _ => b.high ≠ highestEdge := by
    refine (pairwise_high_bucketsOf hasc vs).imp_of_mem ?_
    intro c d _ hd hlt
    have hle := hword d.high (high_mem_of_mem_bucketsOf hd)
    omega
  have hentries := length_counts_bucketsOf hlen vs
  refine members_eq_membersAt ?_ (intervalText_right_injective first label)
    (nodup_leftEntries (hasc.imp Int.ne_of_lt) hentries)
  obtain ⟨a, b, rest, rfl⟩ := exists_eq_cons_cons hlen
  cases hfirst
  have hlow : (bucketsOf (first :: b :: rest) vs).head?.map Bucket.low = some first := by
    rw [bucketsOf_cons]
    rfl
  obtain ⟨bucket, hhead, rfl⟩ := Option.map_eq_some_iff.mp hlow
  have hcounts := congrArg List.tail (runningCounts_bucketsOf 0 bucket.low (b :: rest) vs)
  simp only [Nat.zero_add, List.tail_cons] at hcounts
  rw [leftEntries, countsBefore, hcounts]
  exact intervals_cumulativeLeft hhead hlimits

theorem members_cumulativeRight (hlen : 2 ≤ marks.length) (hasc : marks.Pairwise (· < ·))
    (hword : ∀ t ∈ marks, lowestEdge ≤ t) (hlast : marks.getLast? = some last) (vs : List Int)
    (label : String) :
    (⟨bucketsOf marks vs⟩ : Distribution).members .cumulativeRight label =
      membersAt (intervalText · last ++ label)
        (rightEntries marks ((bucketsOf marks vs).map Bucket.count)) := by
  have hlimits : (bucketsOf marks vs).Pairwise fun _ b => b.low ≠ lowestEdge := by
    refine (pairwise_low_bucketsOf hasc vs).imp_of_mem ?_
    intro c d hc _ hlt
    have hle := hword c.low (low_mem_of_mem_bucketsOf hc)
    omega
  have hentries := length_counts_bucketsOf hlen vs
  refine members_eq_membersAt ?_ (intervalText_left_injective last label)
    (nodup_rightEntries (hasc.imp Int.ne_of_lt) hentries)
  obtain ⟨a, b, rest, rfl⟩ := exists_eq_cons_cons hlen
  have hhigh : (bucketsOf (a :: b :: rest) vs).getLast?.map Bucket.high = some last := by
    rw [← List.getLast?_map, map_high_bucketsOf, List.tail_cons, ← hlast, List.getLast?_cons_cons]
  obtain ⟨bucket, hend, rfl⟩ := Option.map_eq_some_iff.mp hhigh
  rw [rightEntries, runningCounts_bucketsOf_reverse a (b :: rest) vs hlast, List.dropLast_concat,
    List.filter_reverse, List.reverse_reverse]
  exact intervals_cumulativeRight hend hlimits

theorem nodup_low_bucketsOf (hasc : marks.Pairwise (· < ·)) (vs : List Int) :
    ((bucketsOf marks vs).map Bucket.low).Nodup :=
  List.pairwise_map.mpr ((pairwise_low_bucketsOf hasc vs).imp Int.ne_of_lt)

variable (hlen : 2 ≤ marks.length) (hasc : marks.Pairwise (· < ·))
  (hword : ∀ t ∈ marks, lowestEdge ≤ t ∧ t ≤ highestEdge) (hfirst : marks.head? = some first)
  (hlast : marks.getLast? = some last) (vs : List Int) (label : String)

include hlen hasc hword hfirst hlast

/-- No key comes twice in a layout. -/
theorem nodup_keys_members (layout : Layout) :
    (((⟨bucketsOf marks vs⟩ : Distribution).members layout label).map Prod.fst).Nodup := by
  have hmarks : marks.Nodup := hasc.imp Int.ne_of_lt
  have hentries := length_counts_bucketsOf hlen vs
  cases layout with
  | separate =>
      have hlows := nodup_low_bucketsOf hasc vs
      rw [members_separate (d := ⟨bucketsOf marks vs⟩) hlows]
      exact nodup_keys_separate (d := ⟨bucketsOf marks vs⟩) hlows label
  | cumulativeLeft =>
      rw [members_cumulativeLeft hlen hasc (fun t ht => (hword t ht).2) hfirst]
      exact nodup_keys_membersAt (intervalText_right_injective first label)
        (nodup_leftEntries hmarks hentries)
  | cumulativeRight =>
      rw [members_cumulativeRight hlen hasc (fun t ht => (hword t ht).1) hlast]
      exact nodup_keys_membersAt (intervalText_left_injective last label)
        (nodup_rightEntries hmarks hentries)

/-- At an inner mark the way up and the way down meet. -/
theorem exists_members_inner {t : Int} (ht : t ∈ marks.tail.dropLast) :
    ∃ m n : Nat,
      (intervalText first t ++ label, .ofNat m) ∈
          (⟨bucketsOf marks vs⟩ : Distribution).members .cumulativeLeft label ∧
        (intervalText t last ++ label, .ofNat n) ∈
          (⟨bucketsOf marks vs⟩ : Distribution).members .cumulativeRight label ∧
        m + n = (⟨bucketsOf marks vs⟩ : Distribution).total := by
  have hentries := length_counts_bucketsOf hlen vs
  obtain ⟨m, n, hm, hn, hsum⟩ := exists_entries hasc hword hentries ht
  refine ⟨m, n, ?_, ?_, hsum.trans (sumCounts_eq _).symm⟩
  · rw [members_cumulativeLeft hlen hasc (fun t ht => (hword t ht).2) hfirst]
    exact mem_membersAt hm _
  · rw [members_cumulativeRight hlen hasc (fun t ht => (hword t ht).1) hlast]
    exact mem_membersAt hn _

end Buckets

namespace Histogram

open WindowedStats.Distribution (membersAt members_separate)

/-- The three layouts of a histogram after any values, with `label` after each key.  The buckets
themselves, one fewer than there are marks, make a member each, with the number of the accepted
values in the bucket.  On the way up there is a member for each mark after the first with a value
beyond it, with what the buckets before the mark add up to; on the way down one for each mark before
the last with a value beyond it, with what the buckets from the mark on add up to.  No key comes
twice, and at an inner mark the way up and the way down meet: together they count all accepted
values. -/
theorem layouts_sum_up {marks : List Int} {figureLabel bucketLabel : String} {h : Histogram}
    (hh : ofMarks marks figureLabel bucketLabel = .ok h) {first last : Int}
    (hfirst : marks.head? = some first) (hlast : marks.getLast? = some last)
    (hword : ∀ t ∈ marks, lowestEdge ≤ t ∧ t ≤ highestEdge) (vs : List Int) (label : String) :
    let s := (vs.foldl push h).summary
    let buckets := bucketsOf marks (vs.filter (covers marks))
    let counts := buckets.map Bucket.count
    buckets.length + 1 = marks.length ∧
      s.distribution.members .separate label =
        buckets.map (fun b => (intervalText b.low b.high ++ label, .ofNat b.count)) ∧
      s.distribution.members .cumulativeLeft label =
        membersAt (intervalText first · ++ label) (leftEntries marks counts) ∧
      s.distribution.members .cumulativeRight label =
        membersAt (intervalText · last ++ label) (rightEntries marks counts) ∧
      (∀ layout, ((s.distribution.members layout label).map Prod.fst).Nodup) ∧
      ∀ t ∈ marks.tail.dropLast, ∃ m n : Nat,
        (intervalText first t ++ label, .ofNat m) ∈
            s.distribution.members .cumulativeLeft label ∧
          (intervalText t last ++ label, .ofNat n) ∈
            s.distribution.members .cumulativeRight label ∧
          m + n = s.accepted := by
  obtain ⟨t, rfl, hempty⟩ := holds_ofMarks hh
  have hvs : (vs.foldl push h).Holds t vs := hempty.pushes vs
  have hlen := t.two_le_length
  have hasc := t.ascending
  intro s buckets counts
  have hdist : s.distribution = ⟨buckets⟩ := congrArg Summary.distribution hvs.summary_eq
  have htotal : s.distribution.total = s.accepted := hvs.total_eq
  rw [← htotal, hdist]
  refine ⟨?_, members_separate (nodup_low_bucketsOf hasc _) label, ?_, ?_, ?_, ?_⟩
  · rw [length_counts_bucketsOf hlen, List.length_map]
  · exact members_cumulativeLeft hlen hasc (fun m hm => (hword m hm).2) hfirst _ label
  · exact members_cumulativeRight hlen hasc (fun m hm => (hword m hm).1) hlast _ label
  · exact nodup_keys_members hlen hasc hword hfirst hlast _ label
  · intro m hm
    exact exists_members_inner hlen hasc hword hfirst hlast _ label hm

/-- Both ends are open, and the cumulative layouts have no member up to an extreme edge or from
one. -/
theorem layouts_sum_up_open_ends :
    ∃ h, ofMarks [lowestEdge, -5, 10, highestEdge] "" "" = .ok h ∧
      let d := ([-7, 3, -5, 12, 4].foldl push h).summary.distribution
      d.members .separate "_ms" =
          [("min_to_-5_ms", .ofNat 1), ("-5_to_10_ms", .ofNat 3), ("10_to_max_ms", .ofNat 1)] ∧
        d.members .cumulativeLeft "_ms" = [("min_to_-5_ms", .ofNat 1), ("min_to_10_ms", .ofNat 4)] ∧
        d.members .cumulativeRight "_ms" =
          [("10_to_max_ms", .ofNat 1), ("-5_to_max_ms", .ofNat 4)] := by
  obtain ⟨h, hh⟩ : ∃ h, ofMarks [lowestEdge, -5, 10, highestEdge] "" "" = .ok h := ⟨_, rfl⟩
  obtain ⟨-, hseparate, hleft, hright, -, -⟩ :=
    layouts_sum_up hh rfl rfl (by decide) [-7, 3, -5, 12, 4] "_ms"
  exact ⟨h, hh, hseparate.trans rfl, hleft.trans rfl, hright.trans rfl⟩

end Histogram

end WindowedStats
