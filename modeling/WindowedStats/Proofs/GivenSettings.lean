import Mathlib.Data.List.Nodup
import WindowedStats.Proofs.SettingsDocuments

/-!
# Settings are the defaults and what is given

A document gives some settings, each with a value of its type (`Given`), and what it stands for is
the defaults with these settings put in place.  Nothing else about the document matters: neither the
order of its members, nor whether it is an object or a list of the first few values.

The reader of one setting accepts exactly the values that can be given for it (`assign_eq_ok_iff`),
so an object is accepted exactly if its members give different settings (`ofJson_obj_eq_ok_iff`).
Reading goes through given members without a choice (`assignMembers_given`), and so it gets to the
place where an object goes wrong: a name that no setting has, or a setting that was given before.

Documents are values as well as texts, and repeated names survive in both; `ReadAs` and `Refused`
speak of the value, of its own text and of every other text of it.
-/

namespace WindowedStats.Settings

/-! ## What a document gives -/

/-- A setting with a value for it; a duration comes with the text that spells it. -/
inductive Given where
  | localStats (b : Bool)
  | trackWaitTimes (b : Bool)
  | trackRates (b : Bool)
  | rateWindow (text : String) (d : Duration) (spells : Duration.ofSpelled? text = some d)
  | waitThresholds (marks : List Int64)
  | capacityCap (cap : UInt64)

namespace Given

def key : Given → Key
  | localStats _ => .localStats
  | trackWaitTimes _ => .trackWaitTimes
  | trackRates _ => .trackRates
  | rateWindow _ _ _ => .rateWindow
  | waitThresholds _ => .waitThresholds
  | capacityCap _ => .capacityCap

/-- The value in the document. -/
def value : Given → Json
  | localStats b => .bool b
  | trackWaitTimes b => .bool b
  | trackRates b => .bool b
  | rateWindow text _ _ => .str text
  | waitThresholds marks => .arr (marks.map fun t => .int t.toInt)
  | capacityCap cap => .ofNat cap.toNat

/-- The member of an object. -/
def member (g : Given) : String × Json := (g.key.name, g.value)

end Given

/-- Puts a given setting in place. -/
def put (s : Settings) : Given → Settings
  | .localStats b => { s with localStats := b }
  | .trackWaitTimes b => { s with trackWaitTimes := b }
  | .trackRates b => { s with trackRates := b }
  | .rateWindow _ d _ => { s with rateWindow := d }
  | .waitThresholds marks => { s with waitThresholds := marks }
  | .capacityCap cap => { s with capacityCap := cap }

/-- Puts given settings in place, one after the other. -/
def overwrite (s : Settings) (given : List Given) : Settings := given.foldl put s

/-- The settings have the given value. -/
def Has (s : Settings) : Given → Prop
  | .localStats b => s.localStats = b
  | .trackWaitTimes b => s.trackWaitTimes = b
  | .trackRates b => s.trackRates = b
  | .rateWindow _ d _ => s.rateWindow = d
  | .waitThresholds marks => s.waitThresholds = marks
  | .capacityCap cap => s.capacityCap = cap

/-! ## Settings that are put in place -/

theorem Agree.refl (s : Settings) (k : Key) : s.Agree s k := by
  cases k <;> rfl

theorem Agree.trans {s t u : Settings} {k : Key} (h : s.Agree t k) (h' : t.Agree u k) :
    s.Agree u k := by
  cases k <;> exact Eq.trans h h'

theorem Agree.symm {s t : Settings} {k : Key} (h : s.Agree t k) : t.Agree s k := by
  cases k <;> exact Eq.symm h

theorem agree_put (s : Settings) {g : Given} {k : Key} (hne : g.key ≠ k) : (s.put g).Agree s k := by
  cases g <;> cases k <;> first | rfl | exact absurd rfl hne

theorem has_put (s : Settings) (g : Given) : (s.put g).Has g := by
  cases g <;> rfl

theorem Has.of_agree {s t : Settings} {g : Given} (h : t.Has g) (hagree : s.Agree t g.key) :
    s.Has g := by
  cases g <;> exact Eq.trans hagree h

theorem Has.agree {s t : Settings} {g : Given} (h : s.Has g) (h' : t.Has g) : s.Agree t g.key := by
  cases g <;> exact Eq.trans h (Eq.symm h')

/-- A setting that is not given stays as it was. -/
theorem agree_overwrite (s : Settings) {given : List Given} {k : Key}
    (h : k ∉ given.map Given.key) : (s.overwrite given).Agree s k := by
  induction given generalizing s with
  | nil => exact .refl s k
  | cons g given ih =>
      rw [List.map_cons, List.mem_cons, not_or] at h
      exact (ih (s.put g) h.2).trans (s.agree_put (Ne.symm h.1))

/-- A setting that is given once is put in place. -/
theorem has_overwrite (s : Settings) {given : List Given} (hdistinct : (given.map Given.key).Nodup)
    {g : Given} (hg : g ∈ given) : (s.overwrite given).Has g := by
  induction given generalizing s with
  | nil => exact absurd hg List.not_mem_nil
  | cons first given ih =>
      rw [List.map_cons, List.nodup_cons] at hdistinct
      rcases List.mem_cons.mp hg with rfl | hmore
      · exact (s.has_put g).of_agree ((s.put g).agree_overwrite hdistinct.1)
      · exact ih (s.put first) hdistinct.2 hmore

/-- Different settings may be put in place in any order. -/
theorem overwrite_perm (s : Settings) {given others : List Given}
    (hdistinct : (given.map Given.key).Nodup) (hperm : others.Perm given) :
    s.overwrite others = s.overwrite given := by
  have hkeys := hperm.map Given.key
  refine eq_of_agree fun k => ?_
  by_cases hk : k ∈ given.map Given.key
  · obtain ⟨g, hg, rfl⟩ := List.mem_map.mp hk
    have hother := s.has_overwrite (hkeys.nodup_iff.mpr hdistinct) (hperm.mem_iff.mpr hg)
    exact hother.agree (s.has_overwrite hdistinct hg)
  · have hother := s.agree_overwrite (mt hkeys.mem_iff.mp hk)
    exact hother.trans (s.agree_overwrite hk).symm

/-! ## Reading one setting -/

theorem readBool_eq_ok_iff {v : Json} {b : Bool} : readBool v = .ok b ↔ v = .bool b := by
  constructor
  · intro h
    cases v with
    | bool c =>
        cases h
        rfl
    | _ => cases h
  · rintro rfl
    rfl

theorem readDuration_eq_ok_iff {v : Json} {d : Duration} :
    readDuration v = .ok d ↔ ∃ text, v = .str text ∧ Duration.ofSpelled? text = some d := by
  constructor
  · intro h
    cases v with
    | str text =>
        refine ⟨text, rfl, ?_⟩
        rw [readDuration] at h
        split at h
        · next hspelled =>
          cases h
          exact hspelled
        · cases h
    | _ => cases h
  · rintro ⟨text, rfl, hspelled⟩
    rw [readDuration, hspelled]

theorem readThreshold_eq_ok_iff {v : Json} {t : Int64} :
    readThreshold v = .ok t ↔ v = .int t.toInt := by
  constructor
  · intro h
    cases v with
    | int n =>
        rw [readThreshold] at h
        split at h
        · next hrange =>
          cases h
          rw [Bool.and_eq_true, decide_eq_true_eq, decide_eq_true_eq] at hrange
          rw [Int64.toInt_ofInt_of_le hrange.1 (Int.lt_add_one_iff.mpr hrange.2)]
        · cases h
    | _ => cases h
  · rintro rfl
    exact readThreshold_toInt t

theorem mapM_readThreshold_eq_ok_iff {items : List Json} {marks : List Int64} :
    items.mapM readThreshold = .ok marks ↔ items = marks.map fun t => .int t.toInt := by
  constructor
  · intro h
    induction items generalizing marks with
    | nil =>
        cases h
        rfl
    | cons v items ih =>
        rw [List.mapM_cons] at h
        obtain ⟨t, ht, h⟩ := SetupError.bind_eq_ok_iff.mp h
        obtain ⟨rest, hrest, h⟩ := SetupError.bind_eq_ok_iff.mp h
        cases h
        rw [readThreshold_eq_ok_iff.mp ht, ih hrest, List.map_cons]
  · rintro rfl
    exact mapM_readThreshold marks

theorem readThresholds_eq_ok_iff {v : Json} {marks : List Int64} :
    readThresholds v = .ok marks ↔ v = .arr (marks.map fun t => .int t.toInt) := by
  constructor
  · intro h
    cases v with
    | arr items => rw [mapM_readThreshold_eq_ok_iff.mp h]
    | _ => cases h
  · rintro rfl
    exact mapM_readThreshold marks

theorem readCapacity_eq_ok_iff {v : Json} {cap : UInt64} :
    readCapacity v = .ok cap ↔ v = .ofNat cap.toNat := by
  constructor
  · intro h
    cases v with
    | int n =>
        rw [readCapacity] at h
        split at h
        · next hrange =>
          cases h
          rw [Bool.and_eq_true, decide_eq_true_eq, decide_eq_true_eq, maxWord] at hrange
          have hword : n.toNat < UInt64.size := by
            rw [UInt64.size]
            omega
          rw [UInt64.toNat_ofNat_of_lt' hword, Json.ofNat, Int.toNat_of_nonneg hrange.1]
        · cases h
    | _ => cases h
  · rintro rfl
    exact readCapacity_toNat cap

/-- The values that are read as a setting are exactly those that can be given for it. -/
theorem assign_eq_ok_iff {s t : Settings} {k : Key} {v : Json} :
    s.assign k v = .ok t ↔ ∃ g : Given, g.key = k ∧ g.value = v ∧ s.put g = t := by
  constructor
  · intro h
    cases k with
    | localStats =>
        obtain ⟨b, hb, h⟩ := SetupError.bind_eq_ok_iff.mp h
        cases h
        exact ⟨.localStats b, rfl, (readBool_eq_ok_iff.mp hb).symm, rfl⟩
    | trackWaitTimes =>
        obtain ⟨b, hb, h⟩ := SetupError.bind_eq_ok_iff.mp h
        cases h
        exact ⟨.trackWaitTimes b, rfl, (readBool_eq_ok_iff.mp hb).symm, rfl⟩
    | trackRates =>
        obtain ⟨b, hb, h⟩ := SetupError.bind_eq_ok_iff.mp h
        cases h
        exact ⟨.trackRates b, rfl, (readBool_eq_ok_iff.mp hb).symm, rfl⟩
    | rateWindow =>
        obtain ⟨d, hd, h⟩ := SetupError.bind_eq_ok_iff.mp h
        cases h
        obtain ⟨text, rfl, hspelled⟩ := readDuration_eq_ok_iff.mp hd
        exact ⟨.rateWindow text d hspelled, rfl, rfl, rfl⟩
    | waitThresholds =>
        obtain ⟨marks, hmarks, h⟩ := SetupError.bind_eq_ok_iff.mp h
        cases h
        exact ⟨.waitThresholds marks, rfl, (readThresholds_eq_ok_iff.mp hmarks).symm, rfl⟩
    | capacityCap =>
        obtain ⟨cap, hcap, h⟩ := SetupError.bind_eq_ok_iff.mp h
        cases h
        exact ⟨.capacityCap cap, rfl, (readCapacity_eq_ok_iff.mp hcap).symm, rfl⟩
  · rintro ⟨g, rfl, rfl, rfl⟩
    cases g with
    | localStats b => rfl
    | trackWaitTimes b => rfl
    | trackRates b => rfl
    | rateWindow text d spells =>
        exact SetupError.bind_eq_ok_iff.mpr
          ⟨d, readDuration_eq_ok_iff.mpr ⟨text, rfl, spells⟩, rfl⟩
    | waitThresholds marks =>
        exact SetupError.bind_eq_ok_iff.mpr ⟨marks, readThresholds_eq_ok_iff.mpr rfl, rfl⟩
    | capacityCap cap =>
        exact SetupError.bind_eq_ok_iff.mpr ⟨cap, readCapacity_eq_ok_iff.mpr rfl, rfl⟩

theorem assign_given (s : Settings) (g : Given) : s.assign g.key g.value = .ok (s.put g) :=
  assign_eq_ok_iff.mpr ⟨g, rfl, rfl, rfl⟩

/-! ## Reading an object -/

theorem ofName?_eq_some_iff {name : String} {k : Key} :
    Key.ofName? name = some k ↔ k.name = name := by
  constructor
  · intro h
    have hfound := List.find?_some h
    exact of_decide_eq_true hfound
  · rintro rfl
    exact ofName?_name k

theorem ofName?_eq_none_iff {name : String} :
    Key.ofName? name = none ↔ ∀ k : Key, k.name ≠ name := by
  rw [Option.eq_none_iff_forall_ne_some]
  exact forall_congr' fun k => not_congr ofName?_eq_some_iff

/-- Reading goes through given members without a choice, and on to what comes after them. -/
theorem assignMembers_given (s : Settings) {given : List Given} {seen : List Key}
    (hdistinct : (given.map Given.key).Nodup) (hfresh : ∀ g ∈ given, g.key ∉ seen)
    (rest : List (String × Json)) :
    s.assignMembers seen (given.map Given.member ++ rest) =
      (s.overwrite given).assignMembers ((given.map Given.key).reverse ++ seen) rest := by
  induction given generalizing s seen with
  | nil => rfl
  | cons g given ih =>
      obtain ⟨hg, hmore⟩ := List.forall_mem_cons.mp hfresh
      rw [List.map_cons, List.nodup_cons] at hdistinct
      have hnext : ∀ g' ∈ given, g'.key ∉ g.key :: seen := by
        intro g' hg'
        rw [List.mem_cons, not_or]
        refine ⟨?_, hmore g' hg'⟩
        intro hsame
        exact hdistinct.1 (hsame ▸ List.mem_map_of_mem hg')
      rw [List.map_cons, List.cons_append, List.map_cons, List.reverse_cons, List.append_assoc]
      simp only [Given.member, assignMembers, ofName?_name, hg, if_false, assign_given]
      exact ih (s.put g) hdistinct.2 hnext

/-- Members are accepted exactly if they give different settings, none of them seen before. -/
theorem assignMembers_eq_ok_iff {s t : Settings} {seen : List Key}
    {members : List (String × Json)} :
    s.assignMembers seen members = .ok t ↔
      ∃ given : List Given, (given.map Given.key).Nodup ∧ (∀ g ∈ given, g.key ∉ seen) ∧
        given.map Given.member = members ∧ s.overwrite given = t := by
  constructor
  · intro h
    induction members generalizing s seen with
    | nil =>
        cases h
        exact ⟨[], List.nodup_nil, nofun, rfl, rfl⟩
    | cons m members ih =>
        obtain ⟨name, v⟩ := m
        rw [assignMembers] at h
        split at h
        · cases h
        · next key hname =>
          split at h
          · cases h
          · next hseen =>
            obtain ⟨s', hs', h⟩ := SetupError.bind_eq_ok_iff.mp h
            obtain ⟨g, rfl, rfl, rfl⟩ := assign_eq_ok_iff.mp hs'
            obtain ⟨given, hdistinct, hfresh, rfl, rfl⟩ := ih h
            refine ⟨g :: given, ?_, ?_, ?_, rfl⟩
            · rw [List.map_cons, List.nodup_cons]
              refine ⟨?_, hdistinct⟩
              intro hagain
              obtain ⟨g', hg', hkey⟩ := List.mem_map.mp hagain
              exact hfresh g' hg' (hkey ▸ List.mem_cons_self)
            · refine List.forall_mem_cons.mpr ⟨hseen, ?_⟩
              intro g' hg' hold
              exact hfresh g' hg' (List.mem_cons_of_mem _ hold)
            · rw [List.map_cons, Given.member, ofName?_eq_some_iff.mp hname]
  · rintro ⟨given, hdistinct, hfresh, rfl, rfl⟩
    have hread := s.assignMembers_given hdistinct hfresh []
    rwa [List.append_nil] at hread

/-- An object is accepted exactly if its members give different settings. -/
theorem ofJson_obj_eq_ok_iff {members : List (String × Json)} {s : Settings} :
    ofJson (.obj members) = .ok s ↔
      ∃ given : List Given, (given.map Given.key).Nodup ∧ given.map Given.member = members ∧
        standard.overwrite given = s := by
  rw [ofJson, assignMembers_eq_ok_iff]
  refine exists_congr fun given => and_congr_right fun _ => ?_
  exact ⟨fun h => h.2, fun h => ⟨fun _ _ => List.not_mem_nil, h⟩⟩

theorem ofJson_given {given : List Given} (hdistinct : (given.map Given.key).Nodup) :
    ofJson (.obj (given.map Given.member)) = .ok (standard.overwrite given) :=
  ofJson_obj_eq_ok_iff.mpr ⟨given, hdistinct, rfl, rfl⟩

/-- After given members, a name that no setting has is refused. -/
theorem ofJson_unknown {given : List Given} (hdistinct : (given.map Given.key).Nodup)
    {name : String} (hname : ∀ k : Key, k.name ≠ name) (v : Json) (rest : List (String × Json)) :
    ofJson (.obj (given.map Given.member ++ (name, v) :: rest)) = .error (.unknownKey name) := by
  rw [ofJson, assignMembers_given _ hdistinct fun _ _ => List.not_mem_nil]
  simp only [assignMembers, ofName?_eq_none_iff.mpr hname]

/-- After given members, a setting that one of them gives is refused, whatever its value. -/
theorem ofJson_repeated {given : List Given} (hdistinct : (given.map Given.key).Nodup) {k : Key}
    (hk : k ∈ given.map Given.key) (v : Json) (rest : List (String × Json)) :
    ofJson (.obj (given.map Given.member ++ (k.name, v) :: rest)) = .error (.repeatedKey k) := by
  have hseen : k ∈ (given.map Given.key).reverse ++ [] := by
    rwa [List.append_nil, List.mem_reverse]
  rw [ofJson, assignMembers_given _ hdistinct fun _ _ => List.not_mem_nil]
  simp only [assignMembers, ofName?_name, hseen, if_true]

/-- A setting that is given again is refused as repeated, also if it is given first. -/
theorem ofJson_given_again {before after : List Given}
    (hdistinct : ((before ++ after).map Given.key).Nodup) {g : Given}
    (hg : g.key ∈ (before ++ after).map Given.key) :
    ofJson (.obj (before.map Given.member ++ g.member :: after.map Given.member)) =
      .error (.repeatedKey g.key) := by
  rw [List.map_append] at hdistinct hg
  rcases List.mem_append.mp hg with hbefore | hafter
  · exact ofJson_repeated (List.nodup_append.mp hdistinct).1 hbefore g.value _
  -- The member that was there before comes second now, and it is the one that is refused.
  · obtain ⟨again, hagain, hkey⟩ := List.mem_map.mp hafter
    obtain ⟨middle, rest, rfl⟩ := List.append_of_mem hagain
    have hfirst : ((before ++ g :: middle).map Given.key).Nodup := by
      rw [List.map_append, List.map_cons, List.nodup_middle]
      rw [List.map_append, List.map_cons, hkey, ← List.append_assoc, List.nodup_middle] at hdistinct
      exact hdistinct.sublist ((List.sublist_append_left _ _).cons_cons _)
    have hmem : g.key ∈ (before ++ g :: middle).map Given.key := by simp
    have hrefused := ofJson_repeated hfirst hmem again.value (rest.map Given.member)
    rw [← hkey] at hrefused ⊢
    simpa [Given.member] using hrefused

theorem nodup_names {given : List Given} (hdistinct : (given.map Given.key).Nodup) :
    ((given.map Given.member).map Prod.fst).Nodup := by
  have hnames : (given.map Given.member).map Prod.fst = (given.map Given.key).map Key.name := by
    rw [List.map_map, List.map_map]
    rfl
  rw [hnames]
  exact hdistinct.map fun _ _ => name_injective

/-- No object is accepted in which a name stands twice. -/
theorem ofJson_of_repeated_name {before after : List (String × Json)} {name : String}
    (hname : name ∈ (before ++ after).map Prod.fst) (v : Json) :
    ∃ e, ofJson (.obj (before ++ (name, v) :: after)) = .error e := by
  cases hread : ofJson (.obj (before ++ (name, v) :: after)) with
  | error e => exact ⟨e, rfl⟩
  | ok s =>
      obtain ⟨given, hdistinct, hgiven, -⟩ := ofJson_obj_eq_ok_iff.mp hread
      have hnodup := nodup_names hdistinct
      rw [hgiven, List.map_append, List.map_cons, List.nodup_middle, ← List.map_append] at hnodup
      exact absurd hname (List.nodup_cons.mp hnodup).1

/-! ## Reading a list -/

/-- The first few settings are read from a list of their values. -/
theorem assignItems_given (s : Settings) {given : List Given} {keys : List Key}
    (hfirst : given.map Given.key <+: keys) :
    s.assignItems keys (given.map Given.value) = .ok (s.overwrite given) := by
  induction given generalizing s keys with
  | nil => cases keys <;> rfl
  | cons g given ih =>
      obtain ⟨rest, rfl⟩ := hfirst
      rw [List.map_cons, List.map_cons, List.cons_append, assignItems, assign_given]
      exact ih (s.put g) (List.prefix_append _ rest)

theorem ofJson_given_items {given : List Given} (hfirst : given.map Given.key <+: Key.all) :
    ofJson (.arr (given.map Given.value)) = .ok (standard.overwrite given) := by
  have hlen : ¬ Key.all.length < (given.map Given.value).length := by
    have hle := hfirst.length_le
    rw [List.length_map] at hle ⊢
    omega
  simp only [ofJson, assignItems_given _ hfirst, hlen, if_false]
  rfl

/-! ## Documents as texts -/

theorem plain_value (g : Given) : g.value.Plain := by
  cases g with
  | localStats b => exact .bool b
  | trackWaitTimes b => exact .bool b
  | trackRates b => exact .bool b
  | rateWindow text d spells => exact .str text
  | waitThresholds marks =>
      exact plain_written { standard with waitThresholds := marks } .waitThresholds
  | capacityCap cap => exact plain_written { standard with capacityCap := cap } .capacityCap

theorem ofText_eq {text : String} {v : Json} (h : Json.ofText text = .ok v) :
    ofText text = (ofJson v).mapError .ofDocument := by
  rw [ofText, h]

/-- A text is accepted exactly if it is the text of a value that is accepted. -/
theorem ofText_eq_ok_iff {text : String} {s : Settings} :
    ofText text = .ok s ↔ ∃ v, Json.ofText text = .ok v ∧ ofJson v = .ok s := by
  cases htext : Json.ofText text with
  | ok v =>
      rw [ofText_eq htext]
      cases hread : ofJson v with
      | ok t => simp [hread, Except.mapError]
      | error e => simp [hread, Except.mapError]
  | error f =>
      simp only [ofText, htext]
      split <;> simp

/-- The document stands for the settings: as a value, in its own text, and in every other text of
the value. -/
def ReadAs (v : Json) (s : Settings) : Prop :=
  ofJson v = .ok s ∧ ofText v.text = .ok s ∧
    ∀ text, Json.ofText text = .ok v → ofText text = .ok s

/-- The document is refused, as a value and in every text of the value. -/
def Refused (v : Json) (e : DocumentError) : Prop :=
  ofJson v = .error e ∧
    ∀ text, Json.ofText text = .ok v → ofText text = .error (.ofDocument e)

theorem readAs_of_plain {v : Json} {s : Settings} (hplain : v.Plain) (h : ofJson v = .ok s) :
    ReadAs v s := by
  have htexts : ∀ text, Json.ofText text = .ok v → ofText text = .ok s := by
    intro text htext
    rw [ofText_eq htext, h]
    rfl
  exact ⟨h, htexts _ (Json.ofText_text hplain), htexts⟩

/-- Settings are read from an object that gives them in any order. -/
theorem readAs_members {given others : List Given} (hdistinct : (given.map Given.key).Nodup)
    (hperm : others.Perm given) :
    ReadAs (.obj (others.map Given.member)) (standard.overwrite given) := by
  have hothers : (others.map Given.key).Nodup := (hperm.map _).nodup_iff.mpr hdistinct
  have hplain : (Json.obj (others.map Given.member)).Plain := by
    refine .obj ?_
    intro m hm
    obtain ⟨g, -, rfl⟩ := List.mem_map.mp hm
    exact plain_value g
  rw [← standard.overwrite_perm hdistinct hperm]
  exact readAs_of_plain hplain (ofJson_given hothers)

/-- The first few settings are read from the list of their values. -/
theorem readAs_values {given : List Given} (hfirst : given.map Given.key <+: Key.all) :
    ReadAs (.arr (given.map Given.value)) (standard.overwrite given) := by
  have hplain : (Json.arr (given.map Given.value)).Plain := by
    refine .arr ?_
    intro v hv
    obtain ⟨g, -, rfl⟩ := List.mem_map.mp hv
    exact plain_value g
  exact readAs_of_plain hplain (ofJson_given_items hfirst)

theorem refused_of_error {v : Json} {e : DocumentError} (h : ofJson v = .error e) :
    Refused v e := by
  refine ⟨h, ?_⟩
  intro text htext
  rw [ofText_eq htext, h]
  rfl

/-- A text is accepted exactly if its value is, and an object exactly if its members give different
settings, each with a value of its type.  Then it stands for the defaults overwritten by these
settings and by nothing else, in whatever order the members stand, and so does the list of the
values if these are the first few settings in their order.  Such an object is refused as soon as it
has one more member, at whatever place, with a name that no setting has, or with a setting that it
gives already. -/
theorem depend_on_what_is_given :
    (∀ text s, ofText text = .ok s ↔ ∃ v, Json.ofText text = .ok v ∧ ofJson v = .ok s) ∧
    (∀ members s, ofJson (.obj members) = .ok s ↔
      ∃ given : List Given, (given.map Given.key).Nodup ∧ given.map Given.member = members ∧
        standard.overwrite given = s) ∧
    ∀ given : List Given, (given.map Given.key).Nodup →
      ((∀ g ∈ given, (standard.overwrite given).Has g) ∧
        ∀ k ∉ given.map Given.key, (standard.overwrite given).Agree standard k) ∧
      (∀ others : List Given, others.Perm given →
        ReadAs (.obj (others.map Given.member)) (standard.overwrite given)) ∧
      (given.map Given.key <+: Key.all →
        ReadAs (.arr (given.map Given.value)) (standard.overwrite given)) ∧
      ∀ before after : List Given, before ++ after = given →
        (∀ name, (∀ k : Key, k.name ≠ name) → ∀ v,
          Refused (.obj (before.map Given.member ++ (name, v) :: after.map Given.member))
            (.unknownKey name)) ∧
        (∀ k ∈ given.map Given.key, ∀ v,
          ∃ e, Refused
            (.obj (before.map Given.member ++ (k.name, v) :: after.map Given.member)) e) ∧
        ∀ g : Given, g.key ∈ given.map Given.key →
          Refused (.obj (before.map Given.member ++ g.member :: after.map Given.member))
            (.repeatedKey g.key) := by
  refine ⟨fun _ _ => ofText_eq_ok_iff, fun _ _ => ofJson_obj_eq_ok_iff, ?_⟩
  intro given hdistinct
  refine ⟨⟨?_, ?_⟩, ?_, ?_, ?_⟩
  · intro g hg
    exact standard.has_overwrite hdistinct hg
  · intro k hk
    exact standard.agree_overwrite hk
  · intro others hperm
    exact readAs_members hdistinct hperm
  · intro hfirst
    exact readAs_values hfirst
  · rintro before after rfl
    refine ⟨?_, ?_, ?_⟩
    · intro name hname v
      have hbefore : (before.map Given.key).Nodup := by
        rw [List.map_append] at hdistinct
        exact (List.nodup_append.mp hdistinct).1
      exact refused_of_error (ofJson_unknown hbefore hname v _)
    · intro k hk v
      have hname : k.name ∈ (before.map Given.member ++ after.map Given.member).map Prod.fst := by
        obtain ⟨g, hg, rfl⟩ := List.mem_map.mp hk
        rw [← List.map_append]
        exact List.mem_map_of_mem (f := Prod.fst) (List.mem_map_of_mem (f := Given.member) hg)
      obtain ⟨e, he⟩ := ofJson_of_repeated_name hname v
      exact ⟨e, refused_of_error he⟩
    · intro g hg
      exact refused_of_error (ofJson_given_again hdistinct hg)

/-- Two settings, in the other order; a third member is refused. -/
theorem depend_on_what_is_given_reversed :
    ∃ given : List Given, (given.map Given.key).Nodup ∧ given.reverse.Perm given ∧
      given.map Given.member = [("local_stats", .bool true), ("rate_window", .str "250ms")] ∧
      ofText (Json.obj [("rate_window", .str "250ms"), ("local_stats", .bool true)]).text =
        .ok { standard with localStats := true, rateWindow := .ofMillis 250 } ∧
      Refused (.obj [("local_stats", .bool true), ("debug", .null), ("rate_window", .str "250ms")])
        (.unknownKey "debug") ∧
      Refused (.obj [("rate_window", .str "5s"), ("local_stats", .bool true),
        ("rate_window", .str "250ms")]) (.repeatedKey .rateWindow) := by
  have hquarter : Duration.ofSpelled? "250ms" = some (.ofMillis 250) := by decide +kernel
  have hfive : Duration.ofSpelled? "5s" = some (.ofSeconds 5) := by decide +kernel
  let given : List Given := [.localStats true, .rateWindow "250ms" (.ofMillis 250) hquarter]
  have hdistinct : (given.map Given.key).Nodup :=
    (by decide : [Key.localStats, Key.rateWindow].Nodup)
  have hperm : given.reverse.Perm given := given.reverse_perm
  obtain ⟨-, hread, -, hmore⟩ := depend_on_what_is_given.2.2 given hdistinct
  refine ⟨given, hdistinct, hperm, rfl, (hread _ hperm).2.1, ?_, ?_⟩
  · have hunknown : ∀ k : Key, k.name ≠ "debug" := by
      intro k
      cases k <;> decide
    exact (hmore (given.take 1) (given.drop 1) rfl).1 "debug" hunknown .null
  · exact (hmore [] given rfl).2.2 (.rateWindow "5s" (.ofSeconds 5) hfive)
      (by decide : Key.rateWindow ∈ [Key.localStats, Key.rateWindow])

end WindowedStats.Settings
