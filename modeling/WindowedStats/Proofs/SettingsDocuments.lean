import WindowedStats.Proofs.SpelledDurations
import WindowedStats.Proofs.WrittenValues
import WindowedStats.Settings.Document

/-!
# Settings come back from their documents

Settings are written with all six of their values, valid or not.  Each value is read as the setting
that it was written for (`assign_written`); a reader that goes through the members of an object puts
them in place one by one, in whatever order they stand, since the keys are different
(`assignMembers_written`).  In the end nothing is left of the defaults that it started with.

`read_back` says so for the document as a value, also with its members in another order, and for its
text.
-/

namespace WindowedStats.Settings

/-- The value that is written for a setting. -/
def written (s : Settings) : Key → Json
  | .localStats => .bool s.localStats
  | .trackWaitTimes => .bool s.trackWaitTimes
  | .trackRates => .bool s.trackRates
  | .rateWindow => .str s.rateWindow.spelled
  | .waitThresholds => .arr (s.waitThresholds.map fun t => .int t.toInt)
  | .capacityCap => .ofNat s.capacityCap.toNat

theorem toJson_eq (s : Settings) :
    s.toJson = .obj (Key.all.map fun k => (k.name, s.written k)) := rfl

/-- The settings `s` with one setting from `t`. -/
def copy (s t : Settings) : Key → Settings
  | .localStats => { s with localStats := t.localStats }
  | .trackWaitTimes => { s with trackWaitTimes := t.trackWaitTimes }
  | .trackRates => { s with trackRates := t.trackRates }
  | .rateWindow => { s with rateWindow := t.rateWindow }
  | .waitThresholds => { s with waitThresholds := t.waitThresholds }
  | .capacityCap => { s with capacityCap := t.capacityCap }

/-- Two settings have one setting in common. -/
def Agree (s t : Settings) : Key → Prop
  | .localStats => s.localStats = t.localStats
  | .trackWaitTimes => s.trackWaitTimes = t.trackWaitTimes
  | .trackRates => s.trackRates = t.trackRates
  | .rateWindow => s.rateWindow = t.rateWindow
  | .waitThresholds => s.waitThresholds = t.waitThresholds
  | .capacityCap => s.capacityCap = t.capacityCap

theorem eq_of_agree {s t : Settings} (h : ∀ k, s.Agree t k) : s = t := by
  obtain ⟨ls, lw, lr, lwin, lth, lcap⟩ := s
  obtain ⟨rs, rw', rr, rwin, rth, rcap⟩ := t
  cases h .localStats
  cases h .trackWaitTimes
  cases h .trackRates
  cases h .rateWindow
  cases h .waitThresholds
  cases h .capacityCap
  rfl

theorem agree_copy (s t : Settings) (k : Key) : (s.copy t k).Agree t k := by
  cases k <;> rfl

theorem Agree.copy {s t : Settings} {k : Key} (h : s.Agree t k) (key : Key) :
    (s.copy t key).Agree t k := by
  cases key <;> cases k <;> first | exact h | rfl

/-! ## One setting -/

theorem readThreshold_toInt (t : Int64) : readThreshold (.int t.toInt) = .ok t := by
  have hleast : leastSigned ≤ t.toInt := t.le_toInt
  have hgreatest : t.toInt ≤ greatestSigned := Int.lt_add_one_iff.mp t.toInt_lt
  simp only [readThreshold, hleast, hgreatest, decide_true, Bool.and_self, if_true,
    Int64.ofInt_toInt]

theorem mapM_readThreshold (ts : List Int64) :
    (ts.map fun t => Json.int t.toInt).mapM readThreshold = .ok ts := by
  induction ts with
  | nil => rfl
  | cons t rest ih =>
      rw [List.map_cons, List.mapM_cons, readThreshold_toInt, ih]
      rfl

theorem readCapacity_toNat (cap : UInt64) : readCapacity (.ofNat cap.toNat) = .ok cap := by
  have hgreatest : (cap.toNat : Int) ≤ maxWord := Int.ofNat_le.mpr (toNat_le_maxWord cap)
  simp only [Json.ofNat, readCapacity, Int.natCast_nonneg, hgreatest, decide_true, Bool.and_self,
    if_true, Int.toNat_natCast, UInt64.ofNat_toNat]

/-- A setting is read as it was written. -/
theorem assign_written (s t : Settings) (k : Key) :
    s.assign k (t.written k) = .ok (s.copy t k) := by
  cases k with
  | localStats => rfl
  | trackWaitTimes => rfl
  | trackRates => rfl
  | rateWindow =>
      have hread : readDuration (.str t.rateWindow.spelled) = .ok t.rateWindow := by
        rw [readDuration, Duration.ofSpelled?_spelled]
      rw [assign, written, hread]
      rfl
  | waitThresholds =>
      rw [assign, written, readThresholds, mapM_readThreshold]
      rfl
  | capacityCap =>
      rw [assign, written, readCapacity_toNat]
      rfl

theorem plain_written (s : Settings) (k : Key) : (s.written k).Plain := by
  cases k with
  | localStats => exact .bool _
  | trackWaitTimes => exact .bool _
  | trackRates => exact .bool _
  | rateWindow => exact .str _
  | waitThresholds =>
      refine .arr ?_
      intro v hv
      obtain ⟨t, -, rfl⟩ := List.mem_map.mp hv
      have hgreatest := t.toInt_lt
      refine .int t.le_toInt ?_
      rw [maxWord]
      omega
  | capacityCap =>
      refine .int ?_ (Int.ofNat_le.mpr (toNat_le_maxWord s.capacityCap))
      rw [leastSigned]
      omega

/-! ## All settings -/

theorem ofName?_name (k : Key) : Key.ofName? k.name = some k := by
  cases k <;> decide

theorem name_injective {k k' : Key} (h : k.name = k'.name) : k = k' :=
  Option.some.inj ((ofName?_name k).symm.trans (h ▸ ofName?_name k'))

/-- Reading members that were written for different settings puts these in place and keeps what was
there already. -/
theorem assignMembers_written {t : Settings} {members : List (String × Json)} {seen : List Key}
    (hmembers : ∀ m ∈ members, ∃ k, k ∉ seen ∧ m = (k.name, t.written k))
    (hnodup : (members.map (·.1)).Nodup) (s : Settings) :
    ∃ r, s.assignMembers seen members = .ok r ∧
      ∀ k, s.Agree t k ∨ (k.name, t.written k) ∈ members → r.Agree t k := by
  induction members generalizing s seen with
  | nil => exact ⟨s, rfl, fun k h => h.resolve_right List.not_mem_nil⟩
  | cons m members ih =>
      obtain ⟨⟨key, hseen, rfl⟩, hrest⟩ := List.forall_mem_cons.mp hmembers
      rw [List.map_cons, List.nodup_cons] at hnodup
      obtain ⟨hfresh, hnodup⟩ := hnodup
      have hothers : ∀ m ∈ members, ∃ k, k ∉ key :: seen ∧ m = (k.name, t.written k) := by
        intro m hm
        obtain ⟨k, hk, rfl⟩ := hrest m hm
        refine ⟨k, ?_, rfl⟩
        rw [List.mem_cons, not_or]
        refine ⟨?_, hk⟩
        rintro rfl
        exact hfresh (List.mem_map_of_mem hm)
      obtain ⟨r, hr, hagree⟩ := ih hothers hnodup (s.copy t key)
      refine ⟨r, ?_, ?_⟩
      · simp only [assignMembers, ofName?_name, hseen, if_false, assign_written]
        exact hr
      · intro k hk
        refine hagree k ?_
        rcases hk with hkept | hmem
        · exact .inl (hkept.copy key)
        · rcases List.mem_cons.mp hmem with hthis | hmore
          · have hkey : k = key := name_injective (congrArg Prod.fst hthis)
            exact .inl (hkey ▸ agree_copy s t key)
          · exact .inr hmore

theorem ofJson_of_perm {s : Settings} {members others : List (String × Json)}
    (h : s.toJson = .obj members) (hperm : others.Perm members) : ofJson (.obj others) = .ok s := by
  obtain rfl : Key.all.map (fun k => (k.name, s.written k)) = members := Json.obj.inj h
  have hmembers : ∀ m ∈ others, ∃ k, k ∉ ([] : List Key) ∧ m = (k.name, s.written k) := by
    intro m hm
    obtain ⟨k, -, rfl⟩ := List.mem_map.mp (hperm.mem_iff.mp hm)
    exact ⟨k, List.not_mem_nil, rfl⟩
  have hnames : (others.map (·.1)).Perm (Key.all.map Key.name) := by
    have hfst := hperm.map Prod.fst
    rwa [List.map_map] at hfst
  obtain ⟨r, hr, hagree⟩ :=
    assignMembers_written hmembers (hnames.nodup_iff.mpr (by decide)) standard
  have hall : ∀ k, (k.name, s.written k) ∈ others := by
    intro k
    have hk : k ∈ Key.all := by cases k <;> decide
    exact hperm.mem_iff.mpr (List.mem_map_of_mem hk)
  have hrs : r = s := eq_of_agree fun k => hagree k (.inr (hall k))
  rw [ofJson, hr, hrs]

theorem ofText_of_perm {s : Settings} {members others : List (String × Json)}
    (h : s.toJson = .obj members) (hperm : others.Perm members) :
    ofText (Json.obj others).text = .ok s := by
  obtain rfl : Key.all.map (fun k => (k.name, s.written k)) = members := Json.obj.inj h
  have hplain : (Json.obj others).Plain := by
    refine .obj ?_
    intro m hm
    obtain ⟨k, -, rfl⟩ := List.mem_map.mp (hperm.mem_iff.mp hm)
    exact s.plain_written k
  rw [ofText, Json.ofText_text hplain]
  show (ofJson (.obj others)).mapError _ = _
  rw [ofJson_of_perm h hperm]
  rfl

/-- Settings are read as they were written, as a value and as a text, whether or not they are valid
and in whatever order the members of the document stand. -/
theorem read_back (s : Settings) :
    (ofJson s.toJson = .ok s ∧ ofText s.toText = .ok s) ∧
      ∀ members others, s.toJson = .obj members → others.Perm members →
        ofJson (.obj others) = .ok s ∧ ofText (Json.obj others).text = .ok s := by
  have hread : ∀ members others, s.toJson = .obj members → others.Perm members →
      ofJson (.obj others) = .ok s ∧ ofText (Json.obj others).text = .ok s :=
    fun _ _ h hperm => ⟨ofJson_of_perm h hperm, ofText_of_perm h hperm⟩
  exact ⟨hread _ _ s.toJson_eq (.refl _), hread⟩

/-- Settings that are not valid, with the longest window, come back from a document with its members
in the order of their keys. -/
theorem read_back_sorted :
    ∃ (s : Settings) (others : List (String × Json)),
      s.validate ≠ .ok () ∧ s.rateWindow = .longest ∧
      others.map (·.1) = ["local_stats", "max_bucketed_capacity", "rate_window", "track_rates",
        "track_wait_times", "wait_time_thresholds_ms"] ∧
      ofJson (.obj others) = .ok s ∧ ofText (Json.obj others).text = .ok s := by
  let s : Settings :=
    { standard with rateWindow := .longest, waitThresholds := [3, -1], capacityCap := 0 }
  let keys : List Key :=
    [.localStats, .capacityCap, .rateWindow, .trackRates, .trackWaitTimes, .waitThresholds]
  have hkeys : keys.Perm Key.all := by decide
  have hread := (read_back s).2 _ _ s.toJson_eq (hkeys.map fun k => (k.name, s.written k))
  exact ⟨s, _, by decide, rfl, rfl, hread⟩

end WindowedStats.Settings
