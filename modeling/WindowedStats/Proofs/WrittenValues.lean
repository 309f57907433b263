import WindowedStats.Json.Reader
import WindowedStats.Json.Writer

/-!
# Values can be read as they are written

The reader and the writer know of each other only through the text.  What connects them is said for
one value at a time: a reader that awaits a value, and finds it written before the rest of a text,
goes on with the rest as if it had been handed the value (`Reader.Reads`).

This needs a word on what may follow.  A string, an array and an object end by themselves; a numeral
ends only with the character after it, so the rest of the text has to begin with a delimiter or be
empty (`Ends`).  The induction over the value is `reads_of_plain`, with one lemma for each of its
forms, and `ofText_text` is the case of a whole text.
-/

namespace WindowedStats.Json

/-- Values without floating-point numbers, with whole numbers that fit 64 bits. -/
inductive Plain : Json → Prop where
  | null : Plain .null
  | bool (b : Bool) : Plain (.bool b)
  | int {n : Int} (least : leastSigned ≤ n) (greatest : n ≤ maxWord) : Plain (.int n)
  | str (s : String) : Plain (.str s)
  | arr {items : List Json} (plain : ∀ v ∈ items, Plain v) : Plain (.arr items)
  | obj {members : List (String × Json)} (plain : ∀ m ∈ members, Plain m.2) : Plain (.obj members)

/-! ## Numerals -/

namespace Numeral

/-- The numeral of a whole number, from its sign and its digits. -/
def ofWhole (negative : Bool) (n : Nat) : Numeral :=
  ⟨if n = 0 then .zero else .whole, negative, (Nat.toDigits 10 n).reverse, [], false, []⟩

theorem push?_digit {n : Numeral} (h : n.last = .whole) {c : Char} (hc : c.isDigit = true) :
    n.push? c = some { n with whole := c :: n.whole } := by
  simp only [push?, h, hc, if_true]

/-- The digits of a number extend a sign to its numeral. -/
theorem foldlM_push?_toDigits (negative : Bool) (n : Nat) :
    (Nat.toDigits 10 n).foldlM push? { start with negative := negative } =
      some (ofWhole negative n) := by
  induction n using Nat.base_induction 10 (by decide) with
  | single m hm =>
      have hdigits : ∀ d < 10, d = 0 ∨ d.digitChar ≠ '0' ∧ d.digitChar.isDigit = true := by decide
      rw [Nat.toDigits_of_lt_base hm, ofWhole, Nat.toDigits_of_lt_base hm]
      rcases hdigits m hm with rfl | ⟨hne, hdigit⟩
      · rfl
      · have hm : m ≠ 0 := fun h => hne (h ▸ rfl)
        show (push? { start with negative := negative } m.digitChar).bind some = _
        simp only [push?, start, hne, hdigit, hm, if_true, if_false]
        rfl
  | digit m k hk hm ih =>
      have hdigits : Nat.toDigits 10 (10 * m + k) = Nat.toDigits 10 m ++ [k.digitChar] := by
        rw [← Nat.toDigits_append_toDigits (by decide) hm hk, Nat.toDigits_of_lt_base hk]
      have hlast : (ofWhole negative m).last = .whole := if_neg (by omega)
      have hdigit : k.digitChar.isDigit = true := by
        rw [Nat.isDigit_digitChar]
        exact decide_eq_true hk
      rw [hdigits, List.foldlM_append, ih]
      show ((ofWhole negative m).push? k.digitChar).bind some = _
      rw [push?_digit hlast hdigit, ofWhole, ofWhole, hdigits, if_neg (by omega), if_neg (by omega),
        List.reverse_append]
      rfl

theorem digitsValue_ofWhole (negative : Bool) (n : Nat) :
    digitsValue (ofWhole negative n).whole.reverse = n := by
  rw [ofWhole, List.reverse_reverse]
  exact Nat.ofDigitChars_ten_toDigits

theorem last_ofWhole (negative : Bool) (n : Nat) :
    (ofWhole negative n).last = .zero ∨ (ofWhole negative n).last = .whole := by
  rw [ofWhole]
  split
  · exact .inl rfl
  · exact .inr rfl

theorem int?_ofWhole (negative : Bool) (n : Nat) :
    (ofWhole negative n).int? =
      if negative then
        if leastSigned ≤ -(n : Int) && -(n : Int) < 0 then some (-(n : Int)) else none
      else if (n : Int) ≤ maxWord then some (n : Int) else none := by
  have hlast :
      ((ofWhole negative n).last = .zero || (ofWhole negative n).last = .whole) = true := by
    simpa using last_ofWhole negative n
  simp only [int?, hlast, digitsValue_ofWhole]
  rfl

theorem value?_ofWhole_false {n : Nat} (h : (n : Int) ≤ maxWord) :
    (ofWhole false n).value? = some (.int n) := by
  have hint : (ofWhole false n).int? = some (n : Int) := (int?_ofWhole false n).trans (if_pos h)
  rw [value?, hint]

theorem value?_ofWhole_true {n : Nat} (hpos : 0 < n) (h : leastSigned ≤ -(n : Int)) :
    (ofWhole true n).value? = some (.int (-n)) := by
  have hcond : (leastSigned ≤ -(n : Int) && -(n : Int) < 0) = true := by
    rw [Bool.and_eq_true, decide_eq_true_eq, decide_eq_true_eq]
    exact ⟨h, by omega⟩
  have hint : (ofWhole true n).int? = some (-(n : Int)) :=
    (int?_ofWhole true n).trans (if_pos hcond)
  rw [value?, hint]

end Numeral

/-! ## The reader on the rest of a text -/

/-- A value is due, which then stands within some frames. -/
inductive Builder.Awaits : Builder → List Frame → Prop where
  | value (outer : List Frame) : Awaits (.value outer) outer
  | firstItem (outer : List Frame) : Awaits (.firstItem outer) (.arr [] :: outer)

/-- A key is due in an object with some members. -/
inductive Builder.AwaitsKey : Builder → List (String × Json) → List Frame → Prop where
  | first (outer : List Frame) : AwaitsKey (.firstKey outer) [] outer
  | next (done : List (String × Json)) (outer : List Frame) : AwaitsKey (.key done outer) done outer

/-- The rest of a text is empty or begins with a delimiter. -/
def Ends (rest : List Char) : Prop := ∀ c ∈ rest.head?, c = ',' ∨ c = ']' ∨ c = '}'

namespace Reader

/-- What the reader makes of the rest of a text. -/
def read (r : Reader) (cs : List Char) : Except Fault Json := do (← cs.foldlM step r).finish

variable {r next : Reader} {b b' : Builder} {frames : List Frame} {c : Char} {cs rest : List Char}
  {v : Json}

theorem read_cons (h : r.step c = .ok next) (cs : List Char) : r.read (c :: cs) = next.read cs := by
  rw [read, List.foldlM_cons, h]
  rfl

/-- The reader takes the characters for the value, wherever one is due. -/
def Reads (cs : List Char) (v : Json) : Prop :=
  ∀ b frames rest, b.Awaits frames → Ends rest →
    read ⟨.between, b⟩ (cs ++ rest) = read ⟨.between, .after v frames⟩ rest

theorem step?_leaf (h : b.Awaits frames) (v : Json) :
    b.step? (.leaf v) = some (.after v frames) := by
  cases h <;> rfl

/-- The letters of a word that are due are read as its value. -/
theorem read_word {due : List Char} (hdue : due ≠ []) (hb : b.Awaits frames) (v : Json)
    (rest : List Char) :
    read ⟨.word due v, b⟩ (due ++ rest) = read ⟨.between, .after v frames⟩ rest := by
  induction due with
  | nil => exact absurd rfl hdue
  | cons d due ih =>
      cases due with
      | nil =>
          have hlast : step ⟨.word [d] v, b⟩ d = .ok ⟨.between, .after v frames⟩ := by
            simp only [step, if_true, emit, step?_leaf hb]
          exact read_cons hlast rest
      | cons e due =>
          have hnext : step ⟨.word (d :: e :: due) v, b⟩ d = .ok ⟨.word (e :: due) v, b⟩ := by
            simp only [step, if_true, go]
          rw [List.cons_append, read_cons hnext]
          exact ih (List.cons_ne_nil e due)

theorem reads_null : Reads ['n', 'u', 'l', 'l'] .null := by
  intro b frames rest hb _
  exact (read_cons rfl _).trans (read_word (List.cons_ne_nil _ _) hb .null rest)

theorem reads_bool (t : Bool) : Reads (Json.bool t).chars (.bool t) := by
  intro b frames rest hb _
  cases t with
  | true => exact (read_cons rfl _).trans (read_word (List.cons_ne_nil _ _) hb (.bool true) rest)
  | false => exact (read_cons rfl _).trans (read_word (List.cons_ne_nil _ _) hb (.bool false) rest)

/-! ## Numbers -/

theorem read_digits {n n' : Numeral} {digits : List Char}
    (h : digits.foldlM Numeral.push? n = some n') (b : Builder) (rest : List Char) :
    read ⟨.number n, b⟩ (digits ++ rest) = read ⟨.number n', b⟩ rest := by
  induction digits generalizing n with
  | nil =>
      cases h
      rfl
  | cons c digits ih =>
      rw [List.foldlM_cons] at h
      obtain ⟨m, hm, h⟩ := Option.bind_eq_some_iff.mp h
      have hstep : step ⟨.number n, b⟩ c = .ok ⟨.number m, b⟩ := by
        simp only [step, hm]
      rw [List.cons_append, read_cons hstep]
      exact ih h

/-- A finished numeral is handed over at the end of the text, or at a delimiter. -/
theorem read_number {n : Numeral} (hlast : n.last = .zero ∨ n.last = .whole)
    (hvalue : n.value? = some v) (hb : b.Awaits frames) (hrest : Ends rest) :
    read ⟨.number n, b⟩ rest = read ⟨.between, .after v frames⟩ rest := by
  have hfinished : n.isFinished = true := by
    rcases hlast with h | h
    · rw [Numeral.isFinished, h]
    · rw [Numeral.isFinished, h]
  have hemit : emitNumeral ⟨.number n, b⟩ n = .ok ⟨.between, .after v frames⟩ := by
    simp only [emitNumeral, hfinished, hvalue, emit, step?_leaf hb]
  cases rest with
  | nil =>
      show finish ⟨.number n, b⟩ = finish ⟨.between, .after v frames⟩
      simp only [finish, hfinished, hemit, if_true]
      rfl
  | cons c rest =>
      have hc := hrest c rfl
      have hpush : n.push? c = none := by
        rcases hlast with h | h <;> rcases hc with rfl | rfl | rfl <;>
          simp only [Numeral.push?, h] <;> rfl
      have hdigit : c.isDigit = false := by
        rcases hc with rfl | rfl | rfl <;> rfl
      have hstep : step ⟨.number n, b⟩ c = step ⟨.between, .after v frames⟩ c := by
        simp only [step, hpush, hdigit, hemit, Bool.false_eq_true, if_false]
        rfl
      show (do (← List.foldlM step _ _).finish) = (do (← List.foldlM step _ _).finish)
      rw [List.foldlM_cons, List.foldlM_cons, hstep]

theorem begin_digit (h : c.isDigit = true) (r : Reader) :
    r.begin c = match Numeral.start.push? c with
      | some n => .ok { r with scan := .number n }
      | none => .error .malformed := by
  have hspace : isSpace c = false := by
    cases hs : isSpace c with
    | false => rfl
    | true =>
        simp only [isSpace, Bool.or_eq_true, decide_eq_true_eq] at hs
        rcases hs with ((rfl | rfl) | rfl) | rfl <;> cases h
  unfold begin
  split
  all_goals first | cases h | skip
  rw [hspace]
  rfl

theorem reads_nat {n : Nat} (h : (n : Int) ≤ maxWord) : Reads (Nat.toDigits 10 n) (.int n) := by
  intro b frames rest hb hrest
  have hfold : (Nat.toDigits 10 n).foldlM Numeral.push? Numeral.start =
      some (.ofWhole false n) := Numeral.foldlM_push?_toDigits false n
  cases hdigits : Nat.toDigits 10 n with
  | nil => exact absurd hdigits Nat.toDigits_ne_nil
  | cons c digits =>
      have hc : c.isDigit = true :=
        Nat.isDigit_of_mem_toDigits (by decide) (by decide) (hdigits ▸ List.mem_cons_self)
      rw [hdigits, List.foldlM_cons] at hfold
      obtain ⟨m, hm, hfold⟩ := Option.bind_eq_some_iff.mp hfold
      have hstep : step ⟨.between, b⟩ c = .ok ⟨.number m, b⟩ := by
        show begin _ c = _
        rw [begin_digit hc, hm]
      rw [List.cons_append, read_cons hstep, read_digits hfold]
      exact read_number (Numeral.last_ofWhole false n) (Numeral.value?_ofWhole_false h) hb hrest

theorem reads_int {n : Int} (hleast : leastSigned ≤ n) (hgreatest : n ≤ maxWord) :
    Reads (Json.int n).chars (.int n) := by
  cases n with
  | ofNat n =>
      have hchars : (Json.int n).chars = Nat.toDigits 10 n := by
        rw [chars]
        exact Nat.toList_repr
      exact hchars ▸ reads_nat hgreatest
  | negSucc n =>
      have hchars : (Json.int (.negSucc n)).chars = '-' :: Nat.toDigits 10 (n + 1) := by
        rw [chars]
        show ("-" ++ (n + 1).repr).toList = _
        rw [String.toList_append, Nat.toList_repr]
        rfl
      have hfold : (Nat.toDigits 10 (n + 1)).foldlM Numeral.push? Numeral.negated =
          some (.ofWhole true (n + 1)) := Numeral.foldlM_push?_toDigits true (n + 1)
      intro b frames rest hb hrest
      rw [hchars, List.cons_append, read_cons rfl, read_digits hfold]
      exact read_number (Numeral.last_ofWhole true (n + 1))
        (Numeral.value?_ofWhole_true (Nat.succ_pos n) hleast) hb hrest

/-! ## Strings -/

theorem push_digitChar {d : Nat} (hd : d < 16) (h : HexNumber) :
    h.push d.digitChar = ⟨h.bytes + 1, h.value * 16 + d, h.sound⟩ := by
  have hvalue : ∀ d < 16, hexValue? d.digitChar = some d := by decide
  rw [HexNumber.push, hvalue d hd]

/-- Four hexadecimal digits are read as the number that they stand for. -/
theorem read_fourHexDigits {n : Nat} (h : n < 55296) (done cs : List Char) (b : Builder) :
    read ⟨.hex done none ⟨0, 0, true⟩, b⟩ (fourHexDigits n ++ cs) =
      read ⟨.string (Char.ofNat n :: done), b⟩ cs := by
  have hmore : ∀ (bytes value d : Nat), bytes + 1 < 4 → d < 16 → ∀ cs,
      read ⟨.hex done none ⟨bytes, value, true⟩, b⟩ (d.digitChar :: cs) =
        read ⟨.hex done none ⟨bytes + 1, value * 16 + d, true⟩, b⟩ cs := by
    intro bytes value d hbytes hd cs
    refine read_cons ?_ cs
    simp only [step, push_digitChar hd, hbytes, if_true]
  have hlast : ∀ (value d : Nat), d < 16 → value * 16 + d = n → ∀ cs,
      read ⟨.hex done none ⟨3, value, true⟩, b⟩ (d.digitChar :: cs) =
        read ⟨.string (Char.ofNat n :: done), b⟩ cs := by
    intro value d hd hn cs
    have hafter : Scan.afterHex? done none n = some (.string (Char.ofNat n :: done)) := by
      have htrailing : (0xdc00 ≤ n && n < 0xe000) = false := by
        rw [Bool.and_eq_false_iff, decide_eq_false_iff_not]
        exact .inl (by omega)
      have hleading : (0xd800 ≤ n && n < 0xdc00) = false := by
        rw [Bool.and_eq_false_iff, decide_eq_false_iff_not]
        exact .inl (by omega)
      simp only [Scan.afterHex?, htrailing, hleading, Bool.false_eq_true, if_false]
    refine read_cons ?_ cs
    simp only [step, push_digitChar hd, hn, Nat.lt_irrefl, if_true, if_false, hafter]
    rfl
  show read _ (_ :: _ :: _ :: _ :: cs) = _
  rw [hmore _ _ _ (by decide) (by omega), hmore _ _ _ (by decide) (by omega),
    hmore _ _ _ (by decide) (by omega), hlast _ _ (by omega) (by omega)]

theorem read_escapedChar (c : Char) (done cs : List Char) (b : Builder) :
    read ⟨.string done, b⟩ (escapedChar c ++ cs) = read ⟨.string (c :: done), b⟩ cs := by
  -- A pair of a backslash and a letter is read in two steps.
  have hpair : ∀ l : Char, step ⟨.escape done, b⟩ l = .ok ⟨.string (c :: done), b⟩ →
      read ⟨.string done, b⟩ ('\\' :: l :: cs) = read ⟨.string (c :: done), b⟩ cs := by
    intro l hletter
    exact (read_cons rfl _).trans (read_cons hletter cs)
  unfold escapedChar
  split
  · next h => exact hpair '"' (by rw [h]; rfl)
  split
  · next h => exact hpair '\\' (by rw [h]; rfl)
  split
  · next h => exact hpair 'n' (by rw [h]; rfl)
  split
  · next h => exact hpair 'r' (by rw [h]; rfl)
  split
  · next h => exact hpair 't' (by rw [h]; rfl)
  split
  · next h => exact hpair 'b' (by rw [h]; rfl)
  split
  · next h => exact hpair 'f' (by rw [h]; rfl)
  split
  · next h =>
    have hdigits := read_fourHexDigits (show c.toNat < 55296 by omega) done cs b
    rw [Char.ofNat_toNat] at hdigits
    exact (read_cons rfl _).trans ((read_cons rfl _).trans hdigits)
  · next hquote hbackslash _ _ _ _ _ hcontrol =>
    refine read_cons ?_ cs
    simp only [step, hquote, hbackslash, hcontrol, if_false]
    rfl

theorem read_escapedChars (chars done cs : List Char) (b : Builder) :
    read ⟨.string done, b⟩ (chars.flatMap escapedChar ++ cs) =
      read ⟨.string (chars.reverse ++ done), b⟩ cs := by
  induction chars generalizing done with
  | nil => rfl
  | cons c chars ih =>
      rw [List.flatMap_cons, List.append_assoc, read_escapedChar, ih, List.reverse_cons,
        List.append_assoc]
      rfl

/-- A string is read where the builder takes one. -/
theorem read_quotedChars {s : String} (h : b.step? (.leaf (.str s)) = some b') (cs : List Char) :
    read ⟨.between, b⟩ (quotedChars s ++ cs) = read ⟨.between, b'⟩ cs := by
  have hquote : step ⟨.string (s.toList.reverse ++ []), b⟩ '"' = .ok ⟨.between, b'⟩ := by
    show emit _ _ = _
    rw [List.append_nil, List.reverse_reverse, String.ofList_toList, emit, h]
  rw [quotedChars, List.cons_append, List.cons_append, List.append_assoc, read_cons rfl,
    read_escapedChars]
  exact read_cons hquote cs

theorem reads_str (s : String) : Reads (Json.str s).chars (.str s) := by
  intro b frames rest hb _
  rw [chars]
  exact read_quotedChars (step?_leaf hb _) rest

/-! ## Arrays and objects -/

theorem ends_cons {c : Char} (h : c = ',' ∨ c = ']' ∨ c = '}') (cs : List Char) :
    Ends (c :: cs) := by
  rintro _ ⟨⟩
  exact h

/-- The items of an array are read up to its end. -/
theorem read_itemChars {items : List Json} (hitems : ∀ w ∈ v :: items, Reads w.chars w)
    {done : List Json} (hb : b.Awaits (.arr done :: frames)) (rest : List Char) :
    read ⟨.between, b⟩ (itemChars (v :: items) ++ ']' :: rest) =
      read ⟨.between, .after (.arr (done.reverse ++ v :: items)) frames⟩ rest := by
  induction items generalizing v done b with
  | nil =>
      obtain ⟨hv, -⟩ := List.forall_mem_cons.mp hitems
      rw [itemChars, hv b _ _ hb (ends_cons (.inr (.inl rfl)) rest), read_cons rfl,
        List.reverse_cons]
  | cons w items ih =>
      obtain ⟨hv, hrest⟩ := List.forall_mem_cons.mp hitems
      rw [itemChars, List.append_assoc, List.cons_append,
        hv b _ _ hb (ends_cons (.inl rfl) _), read_cons rfl, ih hrest (.value _),
        List.reverse_cons, List.append_assoc]
      rfl

theorem reads_arr {items : List Json} (hitems : ∀ v ∈ items, Reads v.chars v) :
    Reads (Json.arr items).chars (.arr items) := by
  intro b frames rest hb _
  have hopen : step ⟨.between, b⟩ '[' = .ok ⟨.between, .firstItem frames⟩ := by
    cases hb <;> rfl
  rw [chars, List.append_assoc, List.cons_append, read_cons hopen]
  cases items with
  | nil => exact read_cons rfl rest
  | cons v items => exact read_itemChars hitems (.firstItem frames) rest

theorem step?_key {done : List (String × Json)} (h : b.AwaitsKey done frames) (k : String) :
    b.step? (.leaf (.str k)) = some (.colon done k frames) := by
  cases h <;> rfl

/-- The members of an object are read up to its end. -/
theorem read_memberChars {m : String × Json} {members : List (String × Json)}
    (hmembers : ∀ e ∈ m :: members, Reads e.2.chars e.2) {done : List (String × Json)}
    (hb : b.AwaitsKey done frames) (rest : List Char) :
    read ⟨.between, b⟩ (memberChars (m :: members) ++ '}' :: rest) =
      read ⟨.between, .after (.obj (done.reverse ++ m :: members)) frames⟩ rest := by
  induction members generalizing m done b with
  | nil =>
      obtain ⟨hv, -⟩ := List.forall_mem_cons.mp hmembers
      obtain ⟨k, v⟩ := m
      rw [memberChars, List.append_assoc, List.cons_append, read_quotedChars (step?_key hb k),
        read_cons rfl, hv _ _ _ (.value _) (ends_cons (.inr (.inr rfl)) rest), read_cons rfl,
        List.reverse_cons]
  | cons n members ih =>
      obtain ⟨hv, hrest⟩ := List.forall_mem_cons.mp hmembers
      obtain ⟨k, v⟩ := m
      rw [memberChars, List.append_assoc, List.append_assoc, List.cons_append, List.cons_append,
        read_quotedChars (step?_key hb k), read_cons rfl,
        hv _ _ _ (.value _) (ends_cons (.inl rfl) _), read_cons rfl, ih hrest (.next _ _),
        List.reverse_cons, List.append_assoc]
      rfl

theorem reads_obj {members : List (String × Json)} (hmembers : ∀ m ∈ members, Reads m.2.chars m.2) :
    Reads (Json.obj members).chars (.obj members) := by
  intro b frames rest hb _
  have hopen : step ⟨.between, b⟩ '{' = .ok ⟨.between, .firstKey frames⟩ := by
    cases hb <;> rfl
  rw [chars, List.append_assoc, List.cons_append, read_cons hopen]
  cases members with
  | nil => exact read_cons rfl rest
  | cons m members => exact read_memberChars hmembers (.first frames) rest

/-- A plain value is read as it is written, whatever comes after it. -/
theorem reads_of_plain (h : v.Plain) : Reads v.chars v := by
  induction h with
  | null => exact reads_null
  | bool b => exact reads_bool b
  | int hleast hgreatest => exact reads_int hleast hgreatest
  | str s => exact reads_str s
  | arr _ ih => exact reads_arr ih
  | obj _ ih => exact reads_obj ih

end Reader

/-- The text of a plain value is read as that value. -/
theorem ofText_text {v : Json} (h : v.Plain) : ofText v.text = .ok v := by
  have hread := Reader.reads_of_plain h (.value []) [] [] (.value []) nofun
  rw [List.append_nil] at hread
  rw [ofText, text, String.toList_ofList]
  exact hread

end WindowedStats.Json
