import Mathlib.Algebra.Order.BigOperators.Group.List
import Mathlib.Algebra.Order.Ring.Nat
import WindowedStats.Duration.Spelled

/-!
# Every duration can be read as it is spelled

A duration is split by units of odd lengths, years and months among them, and the parts that are not
zero are written one after the other (`spans_eq`).  The reader finds the same parts again
(`spans?_spelling`), since a digit cannot stand in a unit and a letter ends a number.  It adds them
up, and what it has added so far is never longer than the duration itself, so no sum overflows
(`foldlM_plusSpan?`).  `ofSpelled?_spelled` puts these together.
-/

namespace WindowedStats.Duration

/-! ## Parts of a duration -/

/-- A number of units, with the word that is written for them. -/
structure Part where
  number : Nat
  word : String
  unit : TimeUnit

namespace Part

/-- Some units with a name that takes an `s` when there are several. -/
def ofName (name : String) (unit : TimeUnit) (n : Nat) : Part :=
  ⟨n, name ++ (if 1 < n then "s" else ""), unit⟩

def text (p : Part) : String := toString p.number ++ p.word

def span (p : Part) : Span := ⟨p.number, none, p.unit⟩

def nanos (p : Part) : Nat := p.number * p.unit.nanos

end Part

/-- Whether a character of a unit cannot be taken for anything else. -/
def isPlainLetter (c : Char) : Bool := isUnitLetter c && !c.isDigit && !Text.isBlank c

/-- The word names the unit and has letters only. -/
structure Names (word : String) (unit : TimeUnit) : Prop where
  ofWord?_eq : TimeUnit.ofWord? word = some unit
  not_isEmpty : word.toList.isEmpty = false
  all_letters : word.toList.all isPlainLetter = true

theorem Names.ofName {name : String} {unit : TimeUnit} (hone : Names name unit)
    (hmany : Names (name ++ "s") unit) (n : Nat) : Names (Part.ofName name unit n).word unit := by
  rw [Part.ofName]
  split
  · exact hmany
  · rw [String.append_empty]
    exact hone

/-- The parts of a duration, longest unit first. -/
def allParts (d : Duration) : List Part :=
  let inYear := d.seconds % 31557600
  let inMonth := inYear % 2630016
  let inDay := inMonth % 86400
  [.ofName "year" .year (d.seconds / 31557600), .ofName "month" .month (inYear / 2630016),
    .ofName "day" .day (inMonth / 86400), ⟨inDay / 3600, "h", .hour⟩,
    ⟨inDay % 3600 / 60, "m", .minute⟩, ⟨inDay % 60, "s", .second⟩,
    ⟨d.subsecNanos / nanosPerMilli, "ms", .millisecond⟩,
    ⟨d.subsecNanos / nanosPerMicro % 1000, "us", .microsecond⟩,
    ⟨d.subsecNanos % nanosPerMicro, "ns", .nanosecond⟩]

/-- The parts of a duration that are written: those that are not zero, or no seconds if there are
none. -/
def parts (d : Duration) : List Part :=
  if d = zero then [⟨0, "s", .second⟩] else d.allParts.filter (·.number ≠ 0)

theorem pluralSpan_eq (name : String) (unit : TimeUnit) (n : Nat) :
    pluralSpan name n = ([Part.ofName name unit n].filter (·.number ≠ 0)).map Part.text := by
  by_cases h : n = 0
  · simp [pluralSpan, Part.ofName, h]
  · simp [pluralSpan, Part.ofName, Part.text, h, String.append_assoc]

theorem symbolSpan_eq (symbol : String) (unit : TimeUnit) (n : Nat) :
    symbolSpan symbol n = ([Part.mk n symbol unit].filter (·.number ≠ 0)).map Part.text := by
  by_cases h : n = 0
  · simp [symbolSpan, h]
  · simp [symbolSpan, Part.text, h]

theorem spans_eq (d : Duration) :
    d.spans = (d.allParts.filter (·.number ≠ 0)).map Part.text := by
  rw [spans]
  simp only [pluralSpan_eq "year" .year, pluralSpan_eq "month" .month, pluralSpan_eq "day" .day,
    symbolSpan_eq "h" .hour, symbolSpan_eq "m" .minute, symbolSpan_eq "s" .second,
    symbolSpan_eq "ms" .millisecond, symbolSpan_eq "us" .microsecond,
    symbolSpan_eq "ns" .nanosecond, ← List.map_append, ← List.filter_append]
  rfl

theorem spelled_eq (d : Duration) : d.spelled = " ".intercalate (d.parts.map Part.text) := by
  rw [spelled, parts]
  split
  · rfl
  · rw [spans_eq]

theorem names_of_mem_allParts (d : Duration) : ∀ p ∈ d.allParts, Names p.word p.unit := by
  have hhour : Names "h" .hour := ⟨rfl, rfl, rfl⟩
  have hminute : Names "m" .minute := ⟨rfl, rfl, rfl⟩
  have hsecond : Names "s" .second := ⟨rfl, rfl, rfl⟩
  have hmilli : Names "ms" .millisecond := ⟨rfl, rfl, rfl⟩
  have hmicro : Names "us" .microsecond := ⟨rfl, rfl, rfl⟩
  have hnano : Names "ns" .nanosecond := ⟨rfl, rfl, rfl⟩
  simp only [allParts, List.forall_mem_cons]
  refine ⟨?year, ?month, ?day, hhour, hminute, hsecond, hmilli, hmicro, hnano,
    List.forall_mem_nil _⟩
  case year => exact .ofName ⟨rfl, rfl, rfl⟩ ⟨rfl, rfl, rfl⟩ _
  case month => exact .ofName ⟨rfl, rfl, rfl⟩ ⟨rfl, rfl, rfl⟩ _
  case day => exact .ofName ⟨rfl, rfl, rfl⟩ ⟨rfl, rfl, rfl⟩ _

theorem names_of_mem_parts {d : Duration} {p : Part} (h : p ∈ d.parts) : Names p.word p.unit := by
  rw [parts] at h
  split at h
  · rw [List.mem_singleton.mp h]
    exact ⟨rfl, rfl, rfl⟩
  · exact d.names_of_mem_allParts p (List.mem_filter.mp h).1

/-! ## The parts add up to the duration -/

/-- A number of larger units and the smaller ones that are left make the smaller ones there were. -/
theorem carry (n k size more : Nat) :
    n / k * (k * size) + (n % k * size + more) = n * size + more := by
  rw [← Nat.add_assoc, ← Nat.mul_assoc, ← Nat.add_mul, Nat.div_add_mod']

theorem total_allParts (d : Duration) : (d.allParts.map Part.nanos).sum = d.nanos := by
  have hminute : ∀ n : Nat, n % 60 = n % 3600 % 60 :=
    fun n => (Nat.mod_mod_of_dvd n (by decide)).symm
  have hsub : ∀ n : Nat, n / nanosPerMilli * nanosPerMilli +
      (n / nanosPerMicro % 1000 * nanosPerMicro + (n % nanosPerMicro * 1 + 0)) = n := by
    intro n
    simp only [nanosPerMilli, nanosPerMicro]
    omega
  -- Nothing may be computed with these lengths, so they enter after the sum is written out.
  have hyear : TimeUnit.year.nanos = 31557600 * nanosPerSecond := rfl
  have hmonth : TimeUnit.month.nanos = 2630016 * nanosPerSecond := rfl
  have hday : TimeUnit.day.nanos = 86400 * nanosPerSecond := rfl
  have hhour : TimeUnit.hour.nanos = 3600 * nanosPerSecond := rfl
  have hminutes : TimeUnit.minute.nanos = 60 * nanosPerSecond := rfl
  have hsecond : TimeUnit.second.nanos = nanosPerSecond := rfl
  have hmilli : TimeUnit.millisecond.nanos = nanosPerMilli := rfl
  have hmicro : TimeUnit.microsecond.nanos = nanosPerMicro := rfl
  have hnano : TimeUnit.nanosecond.nanos = 1 := rfl
  simp -implicitDefEqProofs only [allParts, Part.ofName, Part.nanos, List.map_cons, List.map_nil,
    List.sum_cons, List.sum_nil]
  rw [hyear, hmonth, hday, hhour, hminutes, hsecond, hmilli, hmicro, hnano, hsub, hminute, carry,
    carry, carry, carry, carry]
  exact Nat.div_add_mod' d.nanos nanosPerSecond

theorem total_parts (d : Duration) : (d.parts.map Part.nanos).sum = d.nanos := by
  rw [parts]
  split
  · next h => rw [h]; rfl
  · rw [← total_allParts d]
    induction d.allParts with
    | nil => rfl
    | cons p rest ih =>
        by_cases hp : p.number = 0
        · rw [List.filter_cons_of_neg (by simpa using hp), ih, List.map_cons, List.sum_cons,
            Part.nanos, hp, Nat.zero_mul, Nat.zero_add]
        · rw [List.filter_cons_of_pos (by simpa using hp), List.map_cons, List.sum_cons, ih,
            List.map_cons, List.sum_cons]

/-- The units below a second that are counted do not make a second. -/
def Part.Short (p : Part) : Prop := p.unit.grain = 1 → p.nanos < nanosPerSecond

theorem short_of_mem_allParts (d : Duration) : ∀ p ∈ d.allParts, p.Short := by
  have hsub : d.subsecNanos < 1000000000 := Nat.mod_lt _ (by decide)
  simp only [allParts, Part.ofName, Part.Short, Part.nanos, TimeUnit.grain, TimeUnit.nanos,
    nanosPerSecond, nanosPerMilli, nanosPerMicro, List.forall_mem_cons]
  refine ⟨?_, ?_, ?_, ?_, ?_, ?_, ?_, ?_, ?_, List.forall_mem_nil _⟩
  all_goals first | exact fun h => absurd h (by decide) | omega

theorem short_of_mem_parts {d : Duration} {p : Part} (h : p ∈ d.parts) : p.Short := by
  rw [parts] at h
  split at h
  · rw [List.mem_singleton.mp h]
    exact fun _ => by decide
  · exact d.short_of_mem_allParts p (List.mem_filter.mp h).1

/-! ## Adding the parts up -/

section Adding

variable {d : Duration} {p : Part}

/-- The number of grains in a part. -/
def Part.grains (p : Part) : Nat := p.number * (p.unit.nanos / p.unit.grain)

theorem grain_cases (u : TimeUnit) : u.grain = 1 ∨ u.grain = nanosPerSecond := by
  cases u with
  | nanosecond | microsecond | millisecond => exact .inl rfl
  | second | minute | hour | day | week | month | year => exact .inr rfl

theorem grains_mul (p : Part) : p.grains * p.unit.grain = p.nanos := by
  have hunit : p.unit.nanos / p.unit.grain * p.unit.grain = p.unit.nanos := by
    cases p.unit <;> rfl
  rw [Part.grains, Nat.mul_assoc, hunit, Part.nanos]

theorem grains_lt (hlt : p.nanos < limit) (hshort : p.Short) : p.grains < wordCount := by
  have hgrains := grains_mul p
  rcases grain_cases p.unit with hgrain | hgrain
  · have hnanos := hshort hgrain
    rw [hgrain, Nat.mul_one] at hgrains
    rw [hgrains]
    exact Nat.lt_trans hnanos (by decide)
  · rw [hgrain] at hgrains
    rw [← hgrains, limit_eq] at hlt
    exact Nat.lt_of_mul_lt_mul_right hlt

theorem number_lt (hlt : p.nanos < limit) (hshort : p.Short) : p.number < wordCount := by
  have hpos : 0 < p.unit.nanos / p.unit.grain := by
    cases p.unit <;> decide
  exact Nat.lt_of_le_of_lt (Nat.le_mul_of_pos_right _ hpos) (grains_lt hlt hshort)

theorem plusSpan?_span (hlt : d.nanos + p.nanos < limit) (hshort : p.Short) :
    d.plusSpan? p.span = some ⟨d.nanos + p.nanos, hlt⟩ := by
  have hfit : fit? p.grains = some p.grains :=
    if_pos (grains_lt (Nat.lt_of_le_of_lt (Nat.le_add_left _ _) hlt) hshort)
  have hroom : (decide (p.unit.grain = 1) &&
      decide (wordCount ≤ d.subsecNanos + p.grains)) = false := by
    rw [Bool.and_eq_false_iff, decide_eq_false_iff_not, decide_eq_false_iff_not]
    by_cases hgrain : p.unit.grain = 1
    · have hnanos := hshort hgrain
      rw [← grains_mul p, hgrain, Nat.mul_one] at hnanos
      have hsub : d.subsecNanos < nanosPerSecond := Nat.mod_lt _ (by decide)
      refine .inr (Nat.not_le.mpr (Nat.lt_trans (Nat.add_lt_add hsub hnanos) ?_))
      decide
    · exact .inl hgrain
  have hplus : d.plus? p.grains p.unit.grain = some ⟨d.nanos + p.nanos, hlt⟩ := by
    simp only [plus?, hroom, grains_mul, dif_pos hlt, Bool.false_eq_true, if_false]
  show ((fit? p.grains).bind (d.plus? · p.unit.grain)).bind some = _
  rw [hfit, Option.bind_some, hplus]
  rfl

theorem foldlM_plusSpan? {ps : List Part} (hlt : d.nanos + (ps.map Part.nanos).sum < limit)
    (hshort : ∀ p ∈ ps, p.Short) :
    (ps.map Part.span).foldlM plusSpan? d = some ⟨d.nanos + (ps.map Part.nanos).sum, hlt⟩ := by
  induction ps generalizing d with
  | nil => rfl
  | cons p rest ih =>
      obtain ⟨hp, hrest⟩ := List.forall_mem_cons.mp hshort
      simp only [List.map_cons, List.sum_cons, ← Nat.add_assoc] at hlt ⊢
      rw [List.foldlM_cons, plusSpan?_span (Nat.lt_of_le_of_lt (Nat.le_add_right _ _) hlt) hp]
      exact ih hlt hrest

end Adding

/-! ## Reading the parts -/

namespace SpanReader

variable {r next : SpanReader} {c : Char} {rest : List Char}

theorem spans?_cons {ended : List Span} (h : r.step? c = some (next, ended)) :
    spans? r (c :: rest) = (spans? next rest).map (ended ++ ·) := by
  rw [spans?, h]
  exact Option.map_eq_bind.symm

/-- A character that ends no span leaves the spans to the rest. -/
theorem spans?_cons_nil (h : r.step? c = some (next, [])) :
    spans? r (c :: rest) = spans? next rest := by
  rw [spans?_cons h]
  exact Option.map_id_apply

theorem spans?_whole {digits : List Char} {n : Nat} (hdigits : ∀ c ∈ digits, c.isDigit = true)
    (hfit : Nat.ofDigitChars 10 digits n < wordCount) (rest : List Char) :
    spans? (.whole n) (digits ++ rest) = spans? (.whole (Nat.ofDigitChars 10 digits n)) rest := by
  induction digits generalizing n with
  | nil => rfl
  | cons c digits ih =>
      obtain ⟨hc, hdigits⟩ := List.forall_mem_cons.mp hdigits
      rw [Nat.ofDigitChars_cons] at hfit ⊢
      have hnext : n * 10 + digitValue c = 10 * n + (c.toNat - '0'.toNat) := by
        rw [Nat.mul_comm]
        rfl
      have hsmall : n * 10 + digitValue c < wordCount := by
        rw [hnext]
        rw [Nat.ofDigitChars_eq_ofDigitChars_zero] at hfit
        have hpos : 0 < 10 ^ digits.length := Nat.pow_pos (by decide)
        have hle := Nat.le_mul_of_pos_left (10 * n + (c.toNat - '0'.toNat)) hpos
        omega
      have hstep : (whole n).step? c = some (whole (n * 10 + digitValue c), []) := by
        simp only [step?, hc, if_true, fit?, if_pos hsmall, Option.map_some]
      rw [List.cons_append, spans?_cons_nil hstep, hnext]
      exact ih hdigits hfit

theorem spans?_number {n : Nat} (hn : n < wordCount) (rest : List Char) :
    spans? .number ((toString n).toList ++ rest) = spans? (.whole n) rest := by
  have hdigits : (toString n).toList = Nat.toDigits 10 n := Nat.toList_repr
  have hvalue : Nat.ofDigitChars 10 (Nat.toDigits 10 n) 0 = n := Nat.ofDigitChars_ten_toDigits
  have hall : ∀ c ∈ Nat.toDigits 10 n, c.isDigit = true :=
    fun c hc => Nat.isDigit_of_mem_toDigits (by decide) (by decide) hc
  rw [hdigits]
  cases hlist : Nat.toDigits 10 n with
  | nil => exact absurd hlist Nat.toDigits_ne_nil
  | cons c digits =>
      rw [hlist, Nat.ofDigitChars_cons, Nat.mul_zero, Nat.zero_add] at hvalue
      rw [hlist] at hall
      obtain ⟨hc, hrest⟩ := List.forall_mem_cons.mp hall
      have hstep : number.step? c = some (whole (digitValue c), []) := by
        simp only [step?, hc, if_true]
      have hwhole := spans?_whole (n := digitValue c) hrest (hvalue ▸ hn) rest
      rw [List.cons_append, spans?_cons_nil hstep, hwhole]
      exact congrArg (fun m => spans? (.whole m) rest) hvalue

theorem spans?_unit {letters : List Char} (hletters : ∀ c ∈ letters, isUnitLetter c = true)
    (n : Nat) (part : Option (Nat × Nat)) (done rest : List Char) :
    spans? (.unit n part done) (letters ++ rest) =
      spans? (.unit n part (letters.reverse ++ done)) rest := by
  induction letters generalizing done with
  | nil => rfl
  | cons c letters ih =>
      obtain ⟨hc, hletters⟩ := List.forall_mem_cons.mp hletters
      have hstep : (unit n part done).step? c = some (unit n part (c :: done), []) := by
        simp only [step?, hc, if_true]
      rw [List.cons_append, spans?_cons_nil hstep, ih hletters, List.reverse_cons,
        List.append_assoc]
      rfl

theorem isPlainLetter_iff {c : Char} :
    isPlainLetter c = true ↔
      isUnitLetter c = true ∧ c.isDigit = false ∧ Text.isBlank c = false := by
  rw [isPlainLetter, Bool.and_eq_true, Bool.and_eq_true, Bool.not_eq_true', Bool.not_eq_true',
    and_assoc]

/-- After a part the reader stands at the end of its unit. -/
theorem spans?_part {p : Part} (hp : Names p.word p.unit) (hn : p.number < wordCount)
    (rest : List Char) :
    spans? .number (p.text.toList ++ rest) =
      spans? (.unit p.number none p.word.toList.reverse) rest := by
  have hne := hp.not_isEmpty
  have hletters := List.all_eq_true.mp hp.all_letters
  rw [Part.text, String.toList_append, List.append_assoc, spans?_number hn]
  cases hword : p.word.toList with
  | nil => rw [hword] at hne; cases hne
  | cons c letters =>
      rw [hword] at hletters
      obtain ⟨hc, hrest⟩ := List.forall_mem_cons.mp hletters
      obtain ⟨hletter, hdigit, hblank⟩ := isPlainLetter_iff.mp hc
      have hstep : (whole p.number).step? c = some (unit p.number none [c], []) := by
        simp only [step?, hletter, hdigit, hblank, Bool.false_eq_true, if_false, if_true]
      have hrest : ∀ l ∈ letters, isUnitLetter l = true :=
        fun l hl => (isPlainLetter_iff.mp (hrest l hl)).1
      rw [List.cons_append, spans?_cons_nil hstep, spans?_unit hrest, List.reverse_cons]

theorem ending?_part {p : Part} (hp : Names p.word p.unit) :
    (unit p.number none p.word.toList.reverse).ending? = some [p.span] := by
  rw [ending?, List.reverse_reverse, String.ofList_toList, hp.ofWord?_eq]
  rfl

theorem spans?_spelling {ps : List Part} (hne : ps ≠ []) (hps : ∀ p ∈ ps, Names p.word p.unit)
    (hfit : ∀ p ∈ ps, p.number < wordCount) :
    spans? .number (" ".intercalate (ps.map Part.text)).toList = some (ps.map Part.span) := by
  induction ps with
  | nil => exact absurd rfl hne
  | cons p rest ih =>
      obtain ⟨hp, hrest⟩ := List.forall_mem_cons.mp hps
      obtain ⟨hn, hfit⟩ := List.forall_mem_cons.mp hfit
      cases rest with
      | nil =>
          have hread := spans?_part hp hn []
          rw [List.append_nil] at hread
          rw [List.map_singleton, String.intercalate_singleton, hread]
          exact ending?_part hp
      | cons next rest =>
          have hblank : (unit p.number none p.word.toList.reverse).step? ' ' =
              some (number, [p.span]) := by
            show ((unit p.number none p.word.toList.reverse).ending?).map (number, ·) = _
            rw [ending?_part hp]
            rfl
          rw [List.map_cons, List.map_cons, String.intercalate_cons_cons, String.toList_append,
            String.toList_append, List.append_assoc, spans?_part hp hn]
          show spans? _ (' ' :: (" ".intercalate ((next :: rest).map Part.text)).toList) = _
          rw [spans?_cons hblank, ih (List.cons_ne_nil _ _) hrest hfit]
          rfl

end SpanReader

/-! ## The round trip -/

theorem parts_ne_nil (d : Duration) : d.parts ≠ [] := by
  intro h
  have htotal := d.total_parts
  rw [h] at htotal
  have hzero : d = zero := Duration.ext htotal.symm
  rw [parts, if_pos hzero] at h
  cases h

/-- Every duration is the one that its spelling stands for. -/
theorem ofSpelled?_spelled (d : Duration) : ofSpelled? d.spelled = some d := by
  have hlt : zero.nanos + (d.parts.map Part.nanos).sum < limit := by
    rw [total_parts, nanos_zero, Nat.zero_add]
    exact d.nanos_lt
  have hnumber : ∀ p ∈ d.parts, p.number < wordCount := by
    intro p hp
    refine number_lt (Nat.lt_of_le_of_lt ?_ d.nanos_lt) (short_of_mem_parts hp)
    rw [← total_parts d]
    exact List.le_sum_of_mem (List.mem_map_of_mem hp)
  have hread : SpanReader.spans? .number d.spelled.toList = some (d.parts.map Part.span) := by
    rw [spelled_eq]
    exact SpanReader.spans?_spelling d.parts_ne_nil (fun p hp => names_of_mem_parts hp) hnumber
  have hsum := foldlM_plusSpan? hlt fun p hp => short_of_mem_parts hp
  -- A lone zero has no unit, so no spelling is taken for it.
  have hlone : d.spelled ≠ "0" := by
    intro h
    rw [h] at hread
    cases hread
  have hspans : d.parts.map Part.span ≠ [] := fun h => d.parts_ne_nil (List.map_eq_nil_iff.mp h)
  rw [ofSpelled?, if_neg hlone, hread]
  split
  · next h => cases h
  · next h => exact absurd (Option.some.inj h) hspans
  · next h =>
    rw [← Option.some.inj h, hsum, Option.some.injEq]
    refine Duration.ext ?_
    exact (Nat.zero_add _).trans d.total_parts

/-- The longest duration takes all nine units. -/
example : longest.spelled = "584542046090years 7months 15days 17h 5m 3s 999ms 999us 999ns" := by
  decide

end WindowedStats.Duration
