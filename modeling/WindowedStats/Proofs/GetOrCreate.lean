import WindowedStats.Proofs.ByteOrder
import WindowedStats.Proofs.Calls

/-!
# A registry gets or creates

Each successful set-up names an id and a capacity.  Of all the set-ups in a run only the first one
for each id counts (`firsts`): it makes the record, with the next number and one event.  What the
other calls do, they do to records that are there already (`Monitor.call_cases`).

So after any run the registry has been made by the first set-ups, in their order
(`Registry.MadeBy`), and `Monitor.gets_or_creates` reads from this what a client sees: which record
a lookup gives, what becomes of it, what is listed and exported, and which events are left.
-/

namespace WindowedStats

/-! ## First entries -/

section Firsts

variable {α β : Type} [DecidableEq α]

/-- Appends an entry unless there is one with its key. -/
def enter (made : List (α × β)) (e : α × β) : List (α × β) :=
  if e.1 ∈ made.map (·.1) then made else made ++ [e]

/-- The first entry of each key, in order. -/
def firsts (l : List (α × β)) : List (α × β) := l.foldl enter []

theorem firsts_concat (l : List (α × β)) (e : α × β) : firsts (l ++ [e]) = enter (firsts l) e :=
  List.foldl_concat ..

theorem mem_keys_enter {made : List (α × β)} {e : α × β} {k : α} :
    k ∈ (enter made e).map (·.1) ↔ k ∈ made.map (·.1) ∨ k = e.1 := by
  rw [enter]
  split
  · next hmem => exact ⟨.inl, fun h => h.elim id fun hk => hk ▸ hmem⟩
  · rw [List.map_append, List.mem_append, List.map_singleton, List.mem_singleton]

theorem nodup_keys_enter {made : List (α × β)} (h : (made.map (·.1)).Nodup) (e : α × β) :
    ((enter made e).map (·.1)).Nodup := by
  rw [enter]
  split
  · exact h
  · next hmem =>
    rw [List.map_append, List.map_singleton, ← List.concat_eq_append]
    exact h.concat hmem

theorem mem_keys_firsts {l : List (α × β)} {k : α} :
    k ∈ (firsts l).map (·.1) ↔ k ∈ l.map (·.1) := by
  induction l using List.reverseRecOn with
  | nil => exact Iff.rfl
  | append_singleton l e ih =>
      rw [firsts_concat, mem_keys_enter, ih, List.map_append, List.mem_append, List.map_singleton,
        List.mem_singleton]

theorem nodup_keys_firsts (l : List (α × β)) : ((firsts l).map (·.1)).Nodup := by
  induction l using List.reverseRecOn with
  | nil => exact List.nodup_nil
  | append_singleton l e ih =>
      rw [firsts_concat]
      exact nodup_keys_enter ih e

/-- The first entries are found among all of them. -/
theorem find?_firsts (l : List (α × β)) (k : α) :
    (firsts l).find? (·.1 = k) = l.find? (·.1 = k) := by
  induction l using List.reverseRecOn with
  | nil => rfl
  | append_singleton l e ih =>
      rw [firsts_concat, List.find?_append, ← ih, enter]
      split
      · next hmem =>
        cases hfind : (firsts l).find? (·.1 = k) with
        | some first => rfl
        | none =>
            obtain ⟨first, hfirst, hkey⟩ := List.mem_map.mp hmem
            have hne := List.find?_eq_none.mp hfind first hfirst
            rw [hkey] at hne
            rw [Option.none_or, List.find?_singleton, if_neg hne]
      · exact List.find?_append

end Firsts

/-! ## The listing of a registry -/

namespace Registry

variable {r : Registry}

theorem mem_ids_iff {queueId : String} : queueId ∈ r.ids ↔ queueId ∈ r.names :=
  (List.mergeSort_perm _ _).mem_iff

theorem ids_nodup (h : r.names.Nodup) : r.ids.Nodup :=
  (List.mergeSort_perm _ _).nodup_iff.mpr h

theorem length_ids (r : Registry) : r.ids.length = r.size := by
  rw [ids, List.length_mergeSort, List.length_map, size]

theorem ids_ascending (h : r.names.Nodup) : (r.ids.map Text.bytes).Pairwise (· < ·) := by
  have hsorted : r.ids.Pairwise fun a b => decide (a ≤ b) = true := by
    refine List.pairwise_mergeSort ?_ ?_ _
    · intro a b c hab hbc
      exact decide_eq_true (String.le_trans (of_decide_eq_true hab) (of_decide_eq_true hbc))
    · intro a b
      rw [Bool.or_eq_true, decide_eq_true_eq, decide_eq_true_eq]
      exact String.le_total a b
  rw [List.pairwise_map]
  refine (hsorted.and (ids_nodup h)).imp ?_
  rintro a b ⟨hle, hne⟩
  rcases Std.lt_trichotomy a b with hlt | heq | hgt
  · exact Text.lt_iff_bytes_lt.mp hlt
  · exact absurd heq hne
  · exact absurd hgt (String.not_lt.mpr (of_decide_eq_true hle))

/-- The exported figures stand under the ids, in their order. -/
theorem exists_toJson_eq (h : r.names.Nodup) (now : Duration) :
    ∃ members, (r.toJson now).2 = .obj members ∧ members.map (·.1) = r.ids := by
  have hkeys := r.visitAll_keys fun _ q => q.toJson now
  have hnodup : ((r.visitAll fun _ q => q.toJson now).2.map (·.1)).Nodup := hkeys ▸ ids_nodup h
  exact ⟨_, congrArg Json.obj (Json.Members.ofList_of_nodup hnodup), hkeys⟩

end Registry

/-! ## Registries that set-ups have made -/

namespace Registry

/-- The registry has the settings `s`, and one record for each of a list of ids with capacities, in
their order: what became of a new record for that capacity. -/
structure MadeBy (s : Settings) (made : List (String × UInt64)) (r : Registry) : Prop where
  settings_eq : r.settings = s
  names_eq : r.names = made.map (·.1)
  record : ∀ (i : Nat) queueId capacity, made[i]? = some (queueId, capacity) →
    ∃ q₀ q, s.newRecord capacity = .ok q₀ ∧ r.records[i]? = some (queueId, q) ∧ q₀.Becomes q

variable {s : Settings} {made : List (String × UInt64)} {r r' : Registry} {queueId : String}
  {capacity : UInt64}

theorem recordFor_of_mem (h : queueId ∈ r.names) (capacity : UInt64) :
    ∃ i, r.recordFor queueId capacity = (r, [], .ok i) := by
  obtain ⟨i, hi⟩ := Option.ne_none_iff_exists'.mp (mt find?_eq_none_iff.mp (not_not_intro h))
  exact ⟨i, by simp only [recordFor, hi]⟩

theorem recordFor_of_not_mem (h : queueId ∉ r.names)
    (hok : ∃ i, (r.recordFor queueId capacity).2.2 = .ok i) :
    ∃ q, r.settings.newRecord capacity = .ok q ∧
      r.recordFor queueId capacity = ({ r with records := r.records ++ [(queueId, q)] },
        [.recordCreated queueId capacity], .ok r.records.length) := by
  have hfind : r.find? queueId = none := find?_eq_none_iff.mpr h
  obtain hsome | ⟨q, hq⟩ := (r.exists_recordFor_iff queueId capacity).mp hok
  · rw [hfind] at hsome
    cases hsome
  · exact ⟨q, hq, by simp only [recordFor, hfind, hq]⟩

/-- A successful request leaves an event exactly if there was no record for the id. -/
theorem recordFor_events (hok : ∃ i, (r.recordFor queueId capacity).2.2 = .ok i) :
    (r.recordFor queueId capacity).2.1 =
      if queueId ∈ r.names then [] else [.recordCreated queueId capacity] := by
  split
  · next hmem =>
    obtain ⟨i, hi⟩ := recordFor_of_mem hmem capacity
    rw [hi]
  · next hmem =>
    obtain ⟨q, -, hcreated⟩ := recordFor_of_not_mem hmem hok
    rw [hcreated]

theorem MadeBy.continues (h : r.MadeBy s made) (hcontinues : r.Continues r')
    (hnames : r'.names = r.names) : r'.MadeBy s made := by
  refine ⟨hcontinues.settings_eq.trans h.settings_eq, hnames.trans h.names_eq, ?_⟩
  intro i queueId capacity hi
  obtain ⟨q₀, q, hq₀, hq, hbecomes⟩ := h.record i queueId capacity hi
  obtain ⟨q', hq', hgoes⟩ := hcontinues.record i queueId q hq
  exact ⟨q₀, q', hq₀, hq', hbecomes.trans hgoes⟩

theorem MadeBy.recordFor (h : r.MadeBy s made)
    (hok : ∃ i, (r.recordFor queueId capacity).2.2 = .ok i) :
    (r.recordFor queueId capacity).1.MadeBy s (enter made (queueId, capacity)) := by
  rw [enter, ← h.names_eq]
  split
  · next hmem =>
    obtain ⟨i, hi⟩ := recordFor_of_mem hmem capacity
    rwa [hi]
  · next hmem =>
    obtain ⟨q, hq, hcreated⟩ := recordFor_of_not_mem hmem hok
    have hlength : r.records.length = made.length := by
      have hnames := congrArg List.length h.names_eq
      rwa [names, List.length_map, List.length_map] at hnames
    rw [hcreated]
    refine ⟨h.settings_eq, ?_, ?_⟩
    · rw [List.map_append, ← h.names_eq]
      exact List.map_append
    · intro i id given hi
      rcases getElem?_concat_eq_some hi with hold | ⟨rfl, heq⟩
      · obtain ⟨q₀, q', hq₀, hq', hbecomes⟩ := h.record i id given hold
        exact ⟨q₀, q', hq₀, (getElem?_concat_of_eq_some hq' _).2, hbecomes⟩
      · cases heq
        refine ⟨q, q, h.settings_eq ▸ hq, ?_, .refl q⟩
        rw [← hlength]
        exact List.getElem?_concat_length

theorem Continues.getElem?_names (h : r.Continues r') {i : Nat}
    (hi : r.names[i]? = some queueId) : r'.names[i]? = some queueId := by
  obtain ⟨q, hq⟩ := getElem?_names_iff.mp hi
  obtain ⟨q', hq', -⟩ := h.record i queueId q hq
  exact getElem?_names_iff.mpr ⟨q', hq'⟩

theorem getElem?_names_of_find? {i : Nat} (h : r.find? queueId = some i) :
    r.names[i]? = some queueId := by
  obtain ⟨hlt, hid, -⟩ := List.findIdx?_eq_some_iff_getElem.mp h
  rw [names, List.getElem?_map, List.getElem?_eq_getElem hlt]
  exact congrArg some (of_decide_eq_true hid)

end Registry

/-! ## Runs of calls -/

namespace Monitor

variable {s : Settings} {m m₀ : Monitor} {queueId : String} {i : Nat}

/-- The monitor after some calls, one after the other. -/
def afterCalls (m : Monitor) (calls : List Call) : Monitor :=
  calls.foldl (fun m c => (m.call c).1) m

/-- Something about each of some calls, at the monitor that it finds. -/
def gather {α : Type} (f : Monitor → Call → List α) : Monitor → List Call → List α
  | _, [] => []
  | m, c :: rest => f m c ++ gather f (m.call c).1 rest

/-- The ids and the records of all lookups that succeed, in order. -/
def found : Monitor → List Call → List (String × Nat) := gather fun m c => (m.found? c).toList

/-- The ids and the capacities of all set-ups that succeed, in order. -/
def setUps : Monitor → List Call → List (String × UInt64) := gather fun m c => (m.setUp? c).toList

/-- The event that tells of a record for an id with a capacity. -/
def creation (asked : String × UInt64) : Event := .recordCreated asked.1 asked.2

/-- The debug events of a call. -/
def debugged (m : Monitor) (c : Call) : List Event := (m.call c).2.filter (·.level = .debug)

theorem afterCalls_concat (m : Monitor) (calls : List Call) (c : Call) :
    m.afterCalls (calls ++ [c]) = ((m.afterCalls calls).call c).1 :=
  List.foldl_concat ..

theorem gather_concat {α : Type} (f : Monitor → Call → List α) (m : Monitor) (calls : List Call)
    (c : Call) : gather f m (calls ++ [c]) = gather f m calls ++ f (m.afterCalls calls) c := by
  induction calls generalizing m with
  | nil => exact List.append_nil _
  | cons d rest ih =>
      rw [List.cons_append, gather, ih, gather, List.append_assoc]
      rfl

theorem setUps_concat (m : Monitor) (calls : List Call) (c : Call) :
    m.setUps (calls ++ [c]) = m.setUps calls ++ ((m.afterCalls calls).setUp? c).toList :=
  gather_concat ..

theorem continues_call (m : Monitor) (c : Call) : m.registry.Continues (m.call c).1.registry := by
  obtain ⟨-, hnothing⟩ | ⟨queueId, capacity, -, hasks⟩ := m.call_cases c
  · exact hnothing.continues
  · rw [hasks.registry_eq]
    exact m.registry.continues_recordFor queueId capacity

theorem continues_afterCalls (m : Monitor) (calls : List Call) :
    m.registry.Continues (m.afterCalls calls).registry := by
  induction calls generalizing m with
  | nil => exact .refl _
  | cons c rest ih => exact (m.continues_call c).trans (ih (m.call c).1)

/-- A call leaves a debug event exactly if it sets up something for an id without a record. -/
theorem debugged_eq (m : Monitor) (c : Call) :
    m.debugged c = (m.setUp? c).elim [] fun asked =>
      if asked.1 ∈ m.registry.names then [] else [creation asked] := by
  rw [debugged]
  obtain ⟨hsetUp, hnothing⟩ | ⟨queueId, capacity, hsetUp, hasks⟩ := m.call_cases c
  · rw [hsetUp]
    refine List.filter_eq_nil_iff.mpr ?_
    intro e he
    rw [decide_eq_true_eq]
    exact hnothing.level e he
  · rw [hsetUp, hasks.events_eq, Registry.recordFor_events hasks.succeeds]
    show _ = if queueId ∈ m.registry.names then [] else [creation (queueId, capacity)]
    split <;> rfl

theorem madeBy_afterCalls (hm : ofSettings s = .ok m₀) (calls : List Call) :
    (m₀.afterCalls calls).registry.MadeBy s (firsts (m₀.setUps calls)) := by
  induction calls using List.reverseRecOn with
  | nil =>
      obtain ⟨r, hr, h⟩ := SetupError.bind_eq_ok_iff.mp hm
      obtain ⟨-, -, hr⟩ := SetupError.bind_eq_ok_iff.mp hr
      cases h
      cases hr
      exact ⟨rfl, rfl, fun _ _ _ hnone => absurd hnone.symm (Option.some_ne_none _)⟩
  | append_singleton calls c ih =>
      rw [afterCalls_concat, setUps_concat]
      obtain ⟨hsetUp, hnothing⟩ | ⟨queueId, capacity, hsetUp, hasks⟩ :=
        (m₀.afterCalls calls).call_cases c
      · rw [hsetUp, Option.toList_none, List.append_nil]
        exact ih.continues hnothing.continues hnothing.names_eq
      · rw [hsetUp, Option.toList_some, firsts_concat, hasks.registry_eq]
        exact ih.recordFor hasks.succeeds

/-- All debug events of a run tell of the first set-ups. -/
theorem debugged_afterCalls (hm : ofSettings s = .ok m₀) (calls : List Call) :
    m₀.gather debugged calls = (firsts (m₀.setUps calls)).map creation := by
  induction calls using List.reverseRecOn with
  | nil => rfl
  | append_singleton calls c ih =>
      rw [gather_concat, ih, debugged_eq, (madeBy_afterCalls hm calls).names_eq, setUps_concat]
      cases (m₀.afterCalls calls).setUp? c with
      | none =>
          rw [Option.toList_none, List.append_nil]
          exact List.append_nil _
      | some asked =>
          rw [Option.toList_some, firsts_concat, enter, Option.elim_some]
          split
          · exact List.append_nil _
          · rw [List.map_append, List.map_singleton]

theorem getElem?_names_of_found? {c : Call} (h : m.found? c = some (queueId, i)) :
    (m.call c).1.registry.names[i]? = some queueId := by
  cases c with
  | get id =>
      obtain ⟨j, hj, heq⟩ := Option.map_eq_some_iff.mp h
      cases heq
      exact Registry.getElem?_names_of_find? hj
  | op op =>
      cases op with
      | lookUp id capacity =>
          cases hfound : (m.registry.recordFor id capacity).2.2 with
          | error e =>
              simp only [found?, hfound, Except.toOption, Option.map_none, reduceCtorEq] at h
          | ok j =>
              simp only [found?, hfound, Except.toOption, Option.map_some, Option.some.injEq] at h
              cases h
              exact Registry.getElem?_names_recordFor hfound
      | observe id capacity =>
          cases hmade : (m.observe id capacity).2.2 with
          | error e =>
              simp only [found?, hmade, Except.toOption, Option.bind_none, reduceCtorEq] at h
          | ok j =>
              obtain ⟨shared, own, hshared, -, rfl, hobservers⟩ := observe_eq_ok hmade
              simp only [found?, hmade, Except.toOption, Option.bind_some, hobservers,
                List.getElem?_concat_length, Option.map_some, Option.some.injEq] at h
              cases h
              show (m.observe queueId capacity).1.registry.names[shared]? = some queueId
              rw [observe_registry]
              exact Registry.getElem?_names_recordFor hshared
      | _ => cases h

theorem getElem?_names_of_mem_found (m : Monitor) {calls : List Call}
    (h : (queueId, i) ∈ m.found calls) :
    (m.afterCalls calls).registry.names[i]? = some queueId := by
  induction calls using List.reverseRecOn with
  | nil => cases h
  | append_singleton calls c ih =>
      rw [afterCalls_concat]
      rw [found, gather_concat] at h
      rcases List.mem_append.mp h with hold | hnew
      · exact ((m.afterCalls calls).continues_call c).getElem?_names (ih hold)
      · exact getElem?_names_of_found? (Option.mem_toList.mp hnew)

/-! ## What a client sees -/

/-- What a client sees of a registry after some calls. -/
structure GetsOrCreates (s : Settings) (m₀ : Monitor) (calls : List Call) : Prop where
  /-- Two lookups that succeed give the same record exactly if they ask for the same id. -/
  same_iff : ∀ {queueId queueId' i i'}, (queueId, i) ∈ m₀.found calls →
    (queueId', i') ∈ m₀.found calls → (i = i' ↔ queueId = queueId')
  /-- The record that a lookup gave is still the one for its id. -/
  found : ∀ {queueId i}, (queueId, i) ∈ m₀.found calls →
    (m₀.afterCalls calls).registry.find? queueId = some i
  /-- A mere lookup succeeds exactly after a set-up for its id. -/
  get_iff : ∀ {queueId}, ((m₀.afterCalls calls).found? (.get queueId)).isSome ↔
    ∃ capacity, (queueId, capacity) ∈ m₀.setUps calls
  /-- The record for an id is what became of the one made at the first set-up for it. -/
  record : ∀ {queueId capacity},
    (m₀.setUps calls).find? (·.1 = queueId) = some (queueId, capacity) →
      ∃ i q₀ q, (m₀.afterCalls calls).registry.find? queueId = some i ∧
        (m₀.afterCalls calls).registry.records[i]? = some (queueId, q) ∧
        s.newRecord capacity = .ok q₀ ∧ q₀.Becomes q ∧
        q.sizeAtRemove.marks = queueSizeThresholds capacity s.capacityCap
  /-- Whatever is called next, every record stays under its number and id and keeps its shape. -/
  lasts : ∀ (more : List Call) {i : Nat} {queueId : String} {q : QueueRecord},
    (m₀.afterCalls calls).registry.records[i]? = some (queueId, q) →
      ∃ q', (m₀.afterCalls (calls ++ more)).registry.records[i]? = some (queueId, q') ∧
        q.Becomes q' ∧ q'.shape = q.shape
  /-- The ids are listed in the order of their bytes. -/
  ascending : ((m₀.afterCalls calls).registry.ids.map Text.bytes).Pairwise (· < ·)
  /-- The ids are those of the set-ups that succeeded. -/
  mem_ids_iff : ∀ {queueId}, queueId ∈ (m₀.afterCalls calls).registry.ids ↔
    ∃ capacity, (queueId, capacity) ∈ m₀.setUps calls
  size_eq : (m₀.afterCalls calls).registry.size = (m₀.afterCalls calls).registry.ids.length
  /-- The figures of all queues are exported under the ids, in the order of the listing. -/
  keys : ∀ now, ∃ members, ((m₀.afterCalls calls).registry.toJson now).2 = .obj members ∧
    members.map (·.1) = (m₀.afterCalls calls).registry.ids
  /-- The next call leaves a debug event exactly if it is the first set-up for an id. -/
  debugged_next : ∀ c, (m₀.afterCalls calls).debugged c =
    ((m₀.afterCalls calls).setUp? c).elim [] fun asked =>
      if asked.1 ∈ (m₀.setUps calls).map (·.1) then [] else [creation asked]
  /-- The debug events of all calls are those of the first set-ups, one for each id. -/
  debugged_all : m₀.gather debugged calls = (firsts (m₀.setUps calls)).map creation ∧
    ((firsts (m₀.setUps calls)).map (·.1)).Nodup

theorem afterCalls_append (m : Monitor) (calls more : List Call) :
    m.afterCalls (calls ++ more) = (m.afterCalls calls).afterCalls more :=
  List.foldl_append

/-- Whatever is called, a client sees a registry that gets or creates. -/
theorem gets_or_creates (hm : ofSettings s = .ok m₀) (calls : List Call) :
    m₀.GetsOrCreates s calls := by
  have hmade := madeBy_afterCalls hm calls
  have hnodup : (m₀.afterCalls calls).registry.names.Nodup :=
    hmade.names_eq ▸ nodup_keys_firsts (m₀.setUps calls)
  have hmem : ∀ queueId, queueId ∈ (m₀.afterCalls calls).registry.names ↔
      queueId ∈ (m₀.setUps calls).map (·.1) := by
    intro queueId
    rw [hmade.names_eq, mem_keys_firsts]
  have hasked : ∀ queueId, queueId ∈ (m₀.afterCalls calls).registry.names ↔
      ∃ capacity, (queueId, capacity) ∈ m₀.setUps calls := by
    intro queueId
    rw [hmem, List.mem_map]
    constructor
    · rintro ⟨⟨_, capacity⟩, hmem, rfl⟩
      exact ⟨capacity, hmem⟩
    · rintro ⟨capacity, hmem⟩
      exact ⟨_, hmem, rfl⟩
  have hfound : ∀ {queueId i}, (queueId, i) ∈ m₀.found calls →
      (m₀.afterCalls calls).registry.names[i]? = some queueId := m₀.getElem?_names_of_mem_found
  constructor
  case same_iff =>
    intro queueId queueId' i i' h h'
    constructor
    · rintro rfl
      exact Option.some.inj ((hfound h).symm.trans (hfound h'))
    · rintro rfl
      exact Option.some.inj ((Registry.find?_eq_some hnodup (hfound h)).symm.trans
        (Registry.find?_eq_some hnodup (hfound h')))
  case found =>
    intro queueId i h
    exact Registry.find?_eq_some hnodup (hfound h)
  case get_iff =>
    intro queueId
    rw [← hasked, found?, Option.isSome_map, Option.isSome_iff_ne_none, ne_eq,
      Registry.find?_eq_none_iff, not_not]
  case record =>
    intro queueId capacity hfirst
    rw [← find?_firsts] at hfirst
    obtain ⟨i, hi⟩ := List.getElem?_of_mem (List.mem_of_find?_eq_some hfirst)
    obtain ⟨q₀, q, hq₀, hq, hbecomes⟩ := hmade.record i queueId capacity hi
    have hname := Registry.getElem?_names_iff.mpr ⟨q, hq⟩
    have hmarks := congrArg QueueRecord.Shape.sizeMarks hbecomes.shape_eq
    exact ⟨i, q₀, q, Registry.find?_eq_some hnodup hname, hq, hq₀, hbecomes,
      hmarks.trans (Settings.sizeMarks_newRecord hq₀)⟩
  case lasts =>
    intro more i queueId q hq
    rw [afterCalls_append]
    obtain ⟨q', hq', hbecomes⟩ := ((m₀.afterCalls calls).continues_afterCalls more).record i _ q hq
    exact ⟨q', hq', hbecomes, hbecomes.shape_eq⟩
  case ascending => exact Registry.ids_ascending hnodup
  case mem_ids_iff =>
    intro queueId
    rw [Registry.mem_ids_iff, hasked]
  case size_eq => exact (Registry.length_ids _).symm
  case keys => exact Registry.exists_toJson_eq hnodup
  case debugged_next =>
    intro c
    rw [debugged_eq]
    simp only [hmem]
  case debugged_all => exact ⟨debugged_afterCalls hm calls, nodup_keys_firsts _⟩

/-- Two queues are set up, and one of them is asked for again with another capacity: the first
capacity is the one that counts, and there are two events. -/
theorem gets_or_creates_again :
    ∃ (m₀ : Monitor) (calls : List Call) (i : Nat) (q : QueueRecord),
      ofSettings .standard = .ok m₀ ∧
      calls = [.op (.lookUp "b" 16), .get "a", .op (.observe "a" 8), .op (.lookUp "b" 4)] ∧
      m₀.setUps calls = [("b", 16), ("a", 8), ("b", 4)] ∧
      m₀.gather debugged calls = [.recordCreated "b" 16, .recordCreated "a" 8] ∧
      (m₀.afterCalls calls).registry.records[i]? = some ("b", q) ∧
      q.sizeAtRemove.marks = queueSizeThresholds 16 16384 := by
  let m₀ : Monitor := ⟨⟨.standard, []⟩, []⟩
  have hvalid : Settings.standard.validate = .ok () := rfl
  have hsettings : ∀ run, (m₀.afterCalls run).registry.settings = .standard :=
    fun run => (m₀.continues_afterCalls run).settings_eq
  have hlookUp : ∀ run id capacity, Settings.standard.Usable capacity →
      (m₀.afterCalls run).setUp? (.op (.lookUp id capacity)) = some (id, capacity) := by
    intro run id capacity husable
    obtain ⟨i, hi⟩ :=
      ((setup_succeeds_iff hvalid capacity).2 _ id (hsettings run)).1.mpr (.inr husable)
    simp only [setUp?, hi]
    rfl
  have hobserve : ∀ run id capacity, Settings.standard.Usable capacity →
      (m₀.afterCalls run).setUp? (.op (.observe id capacity)) = some (id, capacity) := by
    intro run id capacity husable
    simp only [setUp?, observe_of_usable (hsettings run) hvalid id husable]
    rfl
  let calls : List Call :=
    [.op (.lookUp "b" 16), .get "a", .op (.observe "a" 8), .op (.lookUp "b" 4)]
  have hsetUps : m₀.setUps calls = [("b", 16), ("a", 8), ("b", 4)] := by
    show ((m₀.afterCalls []).setUp? (.op (.lookUp "b" 16))).toList ++ ([] ++
      (((m₀.afterCalls (calls.take 2)).setUp? (.op (.observe "a" 8))).toList ++
        (((m₀.afterCalls (calls.take 3)).setUp? (.op (.lookUp "b" 4))).toList ++ []))) = _
    rw [hlookUp _ "b" 16 (by decide), hobserve _ "a" 8 (by decide), hlookUp _ "b" 4 (by decide)]
    rfl
  have hm : ofSettings .standard = .ok m₀ := rfl
  have hseen := gets_or_creates hm calls
  have hfirst : (m₀.setUps calls).find? (·.1 = "b") = some ("b", 16) := by
    rw [hsetUps]
    rfl
  obtain ⟨i, -, q, -, hq, -, -, hmarks⟩ := hseen.record hfirst
  obtain ⟨hdebugged, -⟩ := hseen.debugged_all
  refine ⟨m₀, calls, i, q, rfl, rfl, hsetUps, ?_, hq, hmarks⟩
  rw [hdebugged, hsetUps]
  rfl

end Monitor

end WindowedStats
