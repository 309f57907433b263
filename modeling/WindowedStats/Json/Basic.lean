/-!
# Values of the data format

Numbers are whole or floating-point, and stay apart.  An object keeps its members in the order in
which they were written, repeated keys included; `insert` is how a program adds a member.
-/

namespace WindowedStats

/-- A value of the data format. -/
inductive Json where
  | null
  | bool (b : Bool)
  | int (n : Int)
  | float (x : Float)
  | str (s : String)
  | arr (items : List Json)
  | obj (members : List (String × Json))

namespace Json

instance : Inhabited Json := ⟨null⟩

/-- The members of an object, in order. -/
abbrev Members := List (String × Json)

/-- Adds a member: a new key goes to the end, a known one keeps its place and takes the new
value. -/
def Members.insert (key : String) (value : Json) : Members → Members
  | [] => [(key, value)]
  | (k, v) :: rest => if k = key then (k, value) :: rest else (k, v) :: insert key value rest

/-- The members that result from adding each of a list of members in turn. -/
def Members.ofList (members : List (String × Json)) : Members :=
  members.foldl (fun done m => done.insert m.1 m.2) []

theorem Members.insert_of_not_mem {key : String} {value : Json} {ms : Members}
    (h : key ∉ ms.map Prod.fst) : ms.insert key value = ms ++ [(key, value)] := by
  induction ms with
  | nil => rfl
  | cons m rest ih =>
    obtain ⟨k, v⟩ := m
    simp only [List.map_cons, List.mem_cons, not_or] at h
    simp [insert, Ne.symm h.1, ih h.2]

/-- Members with different keys stay as they are. -/
theorem Members.ofList_of_nodup {ms : List (String × Json)} (h : (ms.map Prod.fst).Nodup) :
    ofList ms = ms := by
  suffices key : ∀ (rest done : Members), ((done ++ rest).map Prod.fst).Nodup →
      rest.foldl (fun done m => done.insert m.1 m.2) done = done ++ rest from key ms [] h
  intro rest
  induction rest with
  | nil => simp
  | cons m rest ih =>
    intro done hd
    have fresh : m.1 ∉ done.map Prod.fst := by
      rw [List.map_append, List.nodup_append] at hd
      intro hm
      exact hd.2.2 m.1 hm m.1 (by simp) rfl
    rw [List.foldl_cons, insert_of_not_mem fresh, ih _ (by simpa using hd)]
    simp

/-- A floating-point number as a value: `null` if it is not finite. -/
def ofFloat (x : Float) : Json := if x.isFinite then float x else null

/-- A natural number as a value. -/
def ofNat (n : Nat) : Json := int n

/-- An optional value: `null` if there is none. -/
def ofOption {α : Type} (f : α → Json) : Option α → Json
  | none => null
  | some a => f a

/-- A member for an optional value, left out if there is none. -/
def optionalMember {α : Type} (key : String) (f : α → Json) : Option α → List (String × Json)
  | none => []
  | some a => [(key, f a)]

/-- The value of the first member with a key. -/
def get? (key : String) : Json → Option Json
  | obj members => (members.find? (·.1 = key)).map (·.2)
  | _ => none

end Json

end WindowedStats
