import WindowedStats.Proofs.FactTallies
import WindowedStats.Proofs.MonitorRuns

/-!
# Logs of one queue

The facts of one queue can be logged with the number of the observer that was told of each.  Here is
what such a log has to do with the records of the queue, before there is any monitor.

On the one side there is the shared record.  A registry may hold many records and grow, but at most
one of them belongs to the queue; what is claimed of that one (`Registry.Keeps`) survives whatever
is done to others, and a record that is made later has to satisfy it when it is made.

On the other side there are the observers.  They account for a log if each of them tallies the facts
with its number and no fact has another number (`Accounts`).  Such observers divide the log among
them (`Accounts.exists_parts`): the last one takes its facts, and the others account for the rest.
-/

namespace WindowedStats

open QueueRecord (Fact Part)

/-! ## The record of one queue in a registry -/

namespace Registry

/-- The registry has the settings `s` and at most one record for each id, and the record of one
queue is of a kind. -/
structure Keeps (s : Settings) (queueId : String) (kind : QueueRecord → Prop) (r : Registry) :
    Prop where
  settings_eq : r.settings = s
  names_nodup : r.names.Nodup
  record : ∀ (i : Nat) q, r.records[i]? = some (queueId, q) → kind q

variable {s : Settings} {queueId : String} {kind kind' : QueueRecord → Prop} {r : Registry}

theorem getElem?_visit {α : Type} (r : Registry) (i : Nat)
    (f : String → QueueRecord → QueueRecord × α) (k : Nat) :
    (r.visit i f).1.records[k]? =
      r.records[k]?.map fun e => if i = k then (e.1, (f e.1 e.2).1) else e := by
  rw [visit_fst, List.getElem?_modify]
  rfl

theorem names_visit {α : Type} (r : Registry) (i : Nat)
    (f : String → QueueRecord → QueueRecord × α) : (r.visit i f).1.names = r.names := by
  refine List.ext_getElem? ?_
  intro k
  rw [names, names, List.getElem?_map, List.getElem?_map, getElem?_visit, Option.map_map]
  refine congrArg (Option.map · r.records[k]?) ?_
  funext e
  show (if i = k then (e.1, (f e.1 e.2).1) else e).1 = e.1
  split <;> rfl

theorem find?_eq_none_iff : r.find? queueId = none ↔ queueId ∉ r.names := by
  rw [find?, List.findIdx?_eq_none_iff, names]
  simp only [decide_eq_false_iff_not, List.mem_map, not_exists, not_and]

theorem find?_eq_some {i : Nat} (hnodup : r.names.Nodup) (hi : r.names[i]? = some queueId) :
    r.find? queueId = some i := by
  have hfind : r.find? queueId = r.names.findIdx? (· = queueId) := by
    rw [names, List.findIdx?_map]
    rfl
  obtain ⟨hlt, hid⟩ := List.getElem?_eq_some_iff.mp hi
  rw [hfind, List.findIdx?_eq_some_iff_getElem]
  refine ⟨hlt, decide_eq_true hid, ?_⟩
  intro j hji hj
  have hsame : r.names[j] = r.names[i] := (of_decide_eq_true hj).trans hid.symm
  exact hji.ne ((hnodup.getElem_inj_iff).mp hsame)

/-- What does not touch the record of the queue, or keeps its kind, keeps the kind. -/
theorem Keeps.visit {α : Type} (h : r.Keeps s queueId kind) (i : Nat)
    (f : String → QueueRecord → QueueRecord × α)
    (hf : ∀ q, r.records[i]? = some (queueId, q) → kind q → kind (f queueId q).1) :
    (r.visit i f).1.Keeps s queueId kind := by
  refine ⟨?_, ?_, ?_⟩
  · rw [visit_fst]
    exact h.settings_eq
  · rw [names_visit]
    exact h.names_nodup
  · intro k q hk
    rw [getElem?_visit] at hk
    obtain ⟨⟨id, old⟩, hold, heq⟩ := Option.map_eq_some_iff.mp hk
    by_cases hik : i = k
    · subst hik
      rw [if_pos rfl] at heq
      cases heq
      exact hf old hold (h.record i old hold)
    · rw [if_neg hik] at heq
      cases heq
      exact h.record k q hold

/-- What is done to the record of the queue is done to the only record with its id. -/
theorem Keeps.visit_self {α : Type} (h : r.Keeps s queueId kind) {i : Nat}
    (hi : r.names[i]? = some queueId) (f : String → QueueRecord → QueueRecord × α)
    (hf : ∀ q, kind q → kind' (f queueId q).1) : (r.visit i f).1.Keeps s queueId kind' := by
  refine ⟨?_, ?_, ?_⟩
  · rw [visit_fst]
    exact h.settings_eq
  · rw [names_visit]
    exact h.names_nodup
  · intro k q hk
    have hname : r.names[k]? = some queueId := by
      rw [← names_visit r i f]
      exact getElem?_names_iff.mpr ⟨q, hk⟩
    obtain rfl : i = k := Option.some.inj
      ((find?_eq_some h.names_nodup hi).symm.trans (find?_eq_some h.names_nodup hname))
    rw [getElem?_visit] at hk
    obtain ⟨⟨id, old⟩, hold, heq⟩ := Option.map_eq_some_iff.mp hk
    rw [if_pos rfl] at heq
    cases heq
    exact hf old (h.record i old hold)

theorem Keeps.visitAll {α : Type} (h : r.Keeps s queueId kind)
    (f : String → QueueRecord → QueueRecord × α) (hf : ∀ q, kind q → kind (f queueId q).1) :
    (r.visitAll f).1.Keeps s queueId kind := by
  rw [Registry.visitAll]
  refine List.foldlRecOn
    (motive := fun (acc : Registry × List (String × α)) => acc.1.Keeps s queueId kind)
    r.ids _ h ?_
  rintro ⟨r', done⟩ hacc id -
  cases hfind : r'.find? id with
  | none => simpa only [hfind] using hacc
  | some i => simpa only [hfind] using hacc.visit i f fun q _ hq => hf q hq

theorem Keeps.recordFor (h : r.Keeps s queueId kind) (id : String) (capacity : UInt64)
    (hnew : id = queueId → .recordCreated id capacity ∈ (r.recordFor id capacity).2.1 →
      queueId ∉ r.names → ∀ q, s.newRecord capacity = .ok q → kind q) :
    (r.recordFor id capacity).1.Keeps s queueId kind := by
  simp only [Registry.recordFor] at hnew ⊢
  cases hfind : r.find? id with
  | some i => exact h
  | none =>
      cases hq : r.settings.newRecord capacity with
      | error e => exact h
      | ok q =>
          simp only [hfind, hq] at hnew
          have hid : id ∉ r.names := find?_eq_none_iff.mp hfind
          refine ⟨h.settings_eq, ?_, ?_⟩
          · have hnames : ({ r with records := r.records ++ [(id, q)] } : Registry).names =
                r.names ++ [id] := List.map_append
            rw [hnames, ← List.concat_eq_append]
            exact h.names_nodup.concat hid
          · intro i q' hi
            rcases List.mem_append.mp (List.mem_of_getElem? hi) with hold | hlast
            · obtain ⟨k, hk⟩ := List.getElem?_of_mem hold
              exact h.record k q' hk
            · cases List.mem_singleton.mp hlast
              exact hnew rfl (List.mem_singleton.mpr rfl) hid q (h.settings_eq ▸ hq)

end Registry

/-! ## Facts with the number of their observer -/

/-- The facts of the observer with a number. -/
def factsOf (i : Nat) (log : List (Nat × Fact)) : List Fact := (log.filter (·.1 = i)).map (·.2)

theorem factsOf_append (i : Nat) (log more : List (Nat × Fact)) :
    factsOf i (log ++ more) = factsOf i log ++ factsOf i more := by
  rw [factsOf, List.filter_append, List.map_append]
  rfl

theorem factsOf_self (i : Nat) (facts : List Fact) : factsOf i (facts.map (i, ·)) = facts := by
  have hall : (facts.map (i, ·)).filter (·.1 = i) = facts.map (i, ·) := by
    refine List.filter_eq_self.mpr ?_
    intro e he
    obtain ⟨fact, -, rfl⟩ := List.mem_map.mp he
    exact decide_eq_true rfl
  rw [factsOf, hall, List.map_map]
  exact List.map_id facts

theorem factsOf_of_forall_ne {i : Nat} {log : List (Nat × Fact)} (h : ∀ e ∈ log, e.1 ≠ i) :
    factsOf i log = [] := by
  rw [factsOf, List.map_eq_nil_iff, List.filter_eq_nil_iff]
  intro e he
  simpa using h e he

theorem factsOf_filter {i j : Nat} (h : i ≠ j) (log : List (Nat × Fact)) :
    factsOf i (log.filter fun e => !decide (e.1 = j)) = factsOf i log := by
  rw [factsOf, factsOf, List.filter_filter]
  refine congrArg (List.map Prod.snd) (List.filter_congr ?_)
  intro e _
  by_cases he : e.1 = i
  · simp [he, h]
  · simp [he]

theorem perm_factsOf (i : Nat) (log : List (Nat × Fact)) :
    (log.map (·.2)).Perm ((log.filter fun e => !decide (e.1 = i)).map (·.2) ++ factsOf i log) := by
  have hsplit := List.filter_append_perm (fun e => decide (e.1 = i)) log
  rw [factsOf, ← List.map_append]
  exact (hsplit.symm.trans List.perm_append_comm).map _

/-- The observers of a queue account for a log of facts: each of them keeps a record that tallies
the facts with its number, and there are no others.  The capacities of the records are among those
that have been given. -/
structure Accounts (s : Settings) (queueId : String) (given : UInt64 → Prop)
    (observers : List Observer) (log : List (Nat × Fact)) : Prop where
  own : ∀ (i : Nat) o, observers[i]? = some o → o.queueId = queueId →
    ∃ q capacity, o.own = some q ∧ given capacity ∧ q.Tallies s capacity (factsOf i log)
  told : ∀ e ∈ log, ∃ o, observers[e.1]? = some o ∧ o.queueId = queueId

section Accounts

variable {s : Settings} {queueId : String} {given : UInt64 → Prop} {observers : List Observer}
  {log : List (Nat × Fact)} {o : Observer}

theorem getElem?_concat_eq_some {α : Type} {l : List α} {a b : α} {i : Nat}
    (h : (l ++ [a])[i]? = some b) : l[i]? = some b ∨ i = l.length ∧ b = a := by
  rcases Nat.lt_or_ge i l.length with hlt | hge
  · rw [List.getElem?_append_left hlt] at h
    exact .inl h
  · rw [List.getElem?_append_right hge] at h
    obtain ⟨hlt, hb⟩ := List.getElem?_eq_some_iff.mp h
    rw [List.length_singleton] at hlt
    exact .inr ⟨by omega, hb.symm.trans (List.getElem_singleton hlt)⟩

theorem getElem?_concat_of_eq_some {α : Type} {l : List α} {b : α} {i : Nat} (h : l[i]? = some b)
    (a : α) : i ≠ l.length ∧ (l ++ [a])[i]? = some b := by
  obtain ⟨hlt, -⟩ := List.getElem?_eq_some_iff.mp h
  exact ⟨hlt.ne, (List.getElem?_append_left hlt).trans h⟩

theorem Accounts.factsOf_eq_nil (h : Accounts s queueId given observers log) {i : Nat}
    (hi : ∀ o, observers[i]? = some o → o.queueId ≠ queueId) : factsOf i log = [] := by
  refine factsOf_of_forall_ne ?_
  rintro e he rfl
  obtain ⟨o, ho, hid⟩ := h.told e he
  exact hi o ho hid

/-- One observer is told some facts, if it is one of the queue, or none. -/
theorem Accounts.tell (h : Accounts s queueId given observers log) (facts : List Fact) {i : Nat}
    (o' : Observer) (ho : observers[i]? = some o) (hqueue : o'.queueId = o.queueId)
    (hfacts : facts ≠ [] → o.queueId = queueId)
    (hown : o.queueId = queueId → ∀ q capacity, o.own = some q →
      q.Tallies s capacity (factsOf i log) →
        ∃ q', o'.own = some q' ∧ q'.Tallies s capacity (factsOf i log ++ facts)) :
    Accounts s queueId given (observers.set i o') (log ++ facts.map (i, ·)) := by
  obtain ⟨hlt, -⟩ := List.getElem?_eq_some_iff.mp ho
  have hset : (observers.set i o')[i]? = some o' := List.getElem?_set_self hlt
  constructor
  · intro k p hk hp
    rw [factsOf_append]
    by_cases hki : i = k
    · subst hki
      obtain rfl : o' = p := Option.some.inj (hset.symm.trans hk)
      have hid : o.queueId = queueId := hqueue.symm.trans hp
      obtain ⟨q, capacity, hq, hgiven, htallies⟩ := h.own i o ho hid
      obtain ⟨q', hq', htallies'⟩ := hown hid q capacity hq htallies
      rw [factsOf_self]
      exact ⟨q', capacity, hq', hgiven, htallies'⟩
    · have hnone : factsOf k (facts.map (i, ·)) = [] := by
        refine factsOf_of_forall_ne ?_
        intro e he
        obtain ⟨fact, -, rfl⟩ := List.mem_map.mp he
        exact hki
      rw [hnone, List.append_nil]
      exact h.own k p ((List.getElem?_set_ne hki).symm.trans hk) hp
  · intro e he
    have hstays : ∀ (k : Nat) (p : Observer), observers[k]? = some p → p.queueId = queueId →
        ∃ p' : Observer, (observers.set i o')[k]? = some p' ∧ p'.queueId = queueId := by
      intro k p hk hp
      by_cases hki : i = k
      · subst hki
        obtain rfl : o = p := Option.some.inj (ho.symm.trans hk)
        exact ⟨o', hset, hqueue.trans hp⟩
      · exact ⟨p, (List.getElem?_set_ne hki).trans hk, hp⟩
    rcases List.mem_append.mp he with hold | hnew
    · obtain ⟨p, hk, hp⟩ := h.told e hold
      exact hstays e.1 p hk hp
    · obtain ⟨fact, hfact, rfl⟩ := List.mem_map.mp hnew
      exact hstays i o ho (hfacts (List.ne_nil_of_mem hfact))

/-- A new observer has been told nothing. -/
theorem Accounts.concat (h : Accounts s queueId given observers log)
    (hown : o.queueId = queueId →
      ∃ q capacity, o.own = some q ∧ given capacity ∧ q.Tallies s capacity []) :
    Accounts s queueId given (observers ++ [o]) log := by
  constructor
  · intro i p hi hp
    rcases getElem?_concat_eq_some hi with hold | ⟨rfl, rfl⟩
    · exact h.own i p hold hp
    · have hnone : factsOf observers.length log = [] := by
        refine h.factsOf_eq_nil ?_
        intro p' hp'
        exact absurd rfl (getElem?_concat_of_eq_some hp' p).1
      rw [hnone]
      exact hown hp
  · intro e he
    obtain ⟨p, hp, hid⟩ := h.told e he
    exact ⟨p, (getElem?_concat_of_eq_some hp o).2, hid⟩

/-- Without the last observer, the others account for what is left without its facts. -/
theorem Accounts.others (h : Accounts s queueId given (observers ++ [o]) log) :
    Accounts s queueId given observers
      (log.filter fun e => !decide (e.1 = observers.length)) := by
  constructor
  · intro i p hi hp
    obtain ⟨hne, hi'⟩ := getElem?_concat_of_eq_some hi o
    rw [factsOf_filter hne]
    exact h.own i p hi' hp
  · intro e he
    obtain ⟨helog, hother⟩ := List.mem_filter.mp he
    obtain ⟨p, hp, hid⟩ := h.told e helog
    rcases getElem?_concat_eq_some hp with hold | ⟨hlast, -⟩
    · exact ⟨p, hold, hid⟩
    · simp [hlast] at hother

/-- The observers of the queue divide the log among them. -/
theorem Accounts.exists_parts (h : Accounts s queueId given observers log) :
    ∃ parts : List Part,
      (observers.filter (·.queueId = queueId)).map (·.own) = parts.map (some ·.record) ∧
        (∀ p ∈ parts, given p.capacity) ∧ QueueRecord.Divide s (log.map (·.2)) parts := by
  induction observers using List.reverseRecOn generalizing log with
  | nil =>
      have hempty : log = [] := by
        refine List.eq_nil_iff_forall_not_mem.mpr ?_
        intro e he
        obtain ⟨o, ho, -⟩ := h.told e he
        cases ho
      subst hempty
      exact ⟨[], rfl, List.forall_mem_nil _, List.forall_mem_nil _, .refl _⟩
  | append_singleton observers o ih =>
      obtain ⟨parts, howns, hgiven, hdivide⟩ := ih h.others
      have hsplit := (perm_factsOf observers.length log).trans (hdivide.facts.append_right _)
      by_cases hid : o.queueId = queueId
      · obtain ⟨q, capacity, hq, hcapacity, htallies⟩ :=
          h.own observers.length o List.getElem?_concat_length hid
        refine ⟨parts ++ [⟨q, capacity, factsOf observers.length log⟩], ?_, ?_, ?_, ?_⟩
        · have hlast : (observers ++ [o]).filter (·.queueId = queueId) =
              observers.filter (·.queueId = queueId) ++ [o] := by simp [hid]
          rw [hlast, List.map_append, List.map_append, howns]
          exact congrArg (_ ++ [·]) hq
        · exact List.forall_mem_append.mpr ⟨hgiven, List.forall_mem_singleton.mpr hcapacity⟩
        · exact List.forall_mem_append.mpr ⟨hdivide.tallies, List.forall_mem_singleton.mpr htallies⟩
        · rw [List.flatMap_append, List.flatMap_singleton]
          exact hsplit
      · have hnone : factsOf observers.length log = [] := by
          refine h.factsOf_eq_nil ?_
          intro p hp
          rw [List.getElem?_concat_length] at hp
          exact Option.some.inj hp ▸ hid
        rw [hnone, List.append_nil] at hsplit
        have hlast : (observers ++ [o]).filter (·.queueId = queueId) =
            observers.filter (·.queueId = queueId) := by simp [hid]
        exact ⟨parts, hlast ▸ howns, hgiven, hdivide.tallies, hsplit⟩

end Accounts

end WindowedStats
