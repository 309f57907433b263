import Mathlib.Logic.Relation
import WindowedStats.Proofs.RecordNotes
import WindowedStats.Proofs.Sessions

/-!
# Simultaneous changes

Observers are told of items from many sides at once.  When two of them are told at one instant, it
is a matter of chance which comes first.  It makes no difference: neither to what the monitor is
afterwards, nor to the events that each change leaves in the log.

An observer is touched only by what it is told itself, and a shared record takes note of two facts
of one instant in either order (`QueueRecord.note_comm`).  So two such changes commute
(`Monitor.tell_comm`), and neither can see the other (`Monitor.tell_snd_tell`).  From one swap of
neighbours the result is carried to any number of them.
-/

namespace WindowedStats

/-- An observer, by its number, is told of an item. -/
structure Notice where
  observer : Nat
  now : Duration
  change : ItemChange
  key : Nat

namespace Notice

/-- Two neighbours trade places that have different observers and the same instant. -/
inductive Swap : List Notice → List Notice → Prop
  | swap (front back : List Notice) {a b : Notice} (hobserver : a.observer ≠ b.observer)
      (hnow : a.now = b.now) : Swap (front ++ a :: b :: back) (front ++ b :: a :: back)

/-- Any number of swaps lead from one run to the other. -/
abbrev Interleaved : List Notice → List Notice → Prop := Relation.ReflTransGen Swap

end Notice

/-! ## Two visits to a registry -/

namespace Registry

variable {α β : Type} {f : String → QueueRecord → QueueRecord × α}
  {g : String → QueueRecord → QueueRecord × β}

theorem visit_comm (h : ∀ queueId q, (g queueId (f queueId q).1).1 = (f queueId (g queueId q).1).1)
    (r : Registry) (i j : Nat) :
    ((r.visit i f).1.visit j g).1 = ((r.visit j g).1.visit i f).1 := by
  have hentry : ∀ e : String × QueueRecord,
      (e.1, (g e.1 (f e.1 e.2).1).1) = (e.1, (f e.1 (g e.1 e.2).1).1) :=
    fun e => congrArg (Prod.mk e.1) (h e.1 e.2)
  simp only [visit_fst]
  exact congrArg (Registry.mk r.settings) (modify_comm hentry r.records i j)

/-- What the second of two visits gives, if it gives the same on a record that was visited. -/
theorem visit_snd_visit (h : ∀ queueId q, (g queueId (f queueId q).1).2 = (g queueId q).2)
    (r : Registry) (i j : Nat) : ((r.visit i f).1.visit j g).2 = (r.visit j g).2 := by
  rw [visit_snd, visit_snd, visit_fst, List.getElem?_modify]
  cases r.records[j]? with
  | none => rfl
  | some e =>
      simp only [Option.map_some]
      split
      · exact congrArg some (h e.1 e.2)
      · rfl

end Registry

/-! ## Telling -/

namespace Monitor

/-- Tells an observer of an item; also gives the events. -/
def tell (m : Monitor) (n : Notice) : Monitor × List Event :=
  m.change n.observer n.now n.change n.key

/-- The monitor after some notices. -/
def toldAll (m : Monitor) (run : List Notice) : Monitor := run.foldl (fun m n => (m.tell n).1) m

/-- The notices of a run, each with the events that it leaves in the log. -/
def journal (m : Monitor) : List Notice → List (Notice × List Event)
  | [] => []
  | n :: rest => (n, (m.tell n).2) :: (m.tell n).1.journal rest

variable {m : Monitor} {i : Nat} {o : Observer}

theorem tell_of_none {n : Notice} (h : m.observers[n.observer]? = none) : m.tell n = (m, []) := by
  simp only [tell, change, visitObserver, h]

theorem tell_fst {n : Notice} (h : m.observers[n.observer]? = some o) :
    (m.tell n).1 =
      ⟨(m.registry.visit o.shared fun _ q => q.note n.now (o.follow n.now n.change n.key).2).1,
        m.observers.set n.observer (o.told n.now n.change n.key)⟩ :=
  change_eq h n.now n.change n.key

theorem tell_snd {n : Notice} (h : m.observers[n.observer]? = some o) :
    (m.tell n).2 =
      ((o.own.map fun q => (q.note n.now (o.follow n.now n.change n.key).2).2).getD []) ++
        ((m.registry.visit o.shared fun _ q =>
          q.note n.now (o.follow n.now n.change n.key).2).2.getD []) :=
  change_snd h n.now n.change n.key

theorem getElem?_observers_tell {n : Notice} (h : n.observer ≠ i) (m : Monitor) :
    (m.tell n).1.observers[i]? = m.observers[i]? := by
  cases hn : m.observers[n.observer]? with
  | none => rw [tell_of_none hn]
  | some o => rw [tell_fst hn, List.getElem?_set_ne h]

/-- Two observers may be told at one instant in either order. -/
theorem tell_comm {a b : Notice} (hobserver : a.observer ≠ b.observer) (hnow : a.now = b.now)
    (m : Monitor) : ((m.tell a).1.tell b).1 = ((m.tell b).1.tell a).1 := by
  have ha' := getElem?_observers_tell hobserver.symm m
  have hb' := getElem?_observers_tell hobserver m
  cases ha : m.observers[a.observer]? with
  | none => rw [tell_of_none ha, tell_of_none (ha'.trans ha)]
  | some o =>
      cases hb : m.observers[b.observer]? with
      | none => rw [tell_of_none hb, tell_of_none (hb'.trans hb)]
      | some o' =>
          rw [tell_fst (hb'.trans hb), tell_fst (ha'.trans ha), tell_fst ha, tell_fst hb, hnow]
          refine congrArg₂ Monitor.mk ?_ (List.set_comm _ _ hobserver)
          exact Registry.visit_comm (fun _ q => q.note_comm b.now _ _) m.registry _ _

/-- An observer that is told leaves the same events whether or not another one was told before it at
the same instant. -/
theorem tell_snd_tell {a b : Notice} (hobserver : a.observer ≠ b.observer) (hnow : a.now = b.now)
    (m : Monitor) : ((m.tell a).1.tell b).2 = (m.tell b).2 := by
  have hb' := getElem?_observers_tell hobserver m
  cases ha : m.observers[a.observer]? with
  | none => rw [tell_of_none ha]
  | some o =>
      cases hb : m.observers[b.observer]? with
      | none => rw [tell_of_none hb, tell_of_none (hb'.trans hb)]
      | some o' =>
          rw [tell_snd (hb'.trans hb), tell_snd hb, tell_fst ha, hnow,
            Registry.visit_snd_visit fun _ q => q.note_snd_note b.now _ _]

/-! ## Interleavings -/

theorem toldAll_append (m : Monitor) (run more : List Notice) :
    m.toldAll (run ++ more) = (m.toldAll run).toldAll more :=
  List.foldl_append

theorem journal_append (m : Monitor) (run more : List Notice) :
    m.journal (run ++ more) = m.journal run ++ (m.toldAll run).journal more := by
  induction run generalizing m with
  | nil => rfl
  | cons n rest ih => exact congrArg (List.cons _) (ih (m.tell n).1)

theorem toldAll_swap {run run' : List Notice} (h : Notice.Swap run run') (m : Monitor) :
    m.toldAll run = m.toldAll run' := by
  obtain ⟨front, back, hobserver, hnow⟩ := h
  rw [toldAll_append, toldAll_append]
  exact congrArg (toldAll · back) (tell_comm hobserver hnow (m.toldAll front))

/-- The entries that two neighbours make trade places, too, and are the same. -/
theorem journal_pair {a b : Notice} (hobserver : a.observer ≠ b.observer) (hnow : a.now = b.now)
    (m : Monitor) (back : List Notice) :
    m.journal (a :: b :: back) =
      (a, (m.tell a).2) :: (b, (m.tell b).2) :: ((m.tell a).1.tell b).1.journal back := by
  rw [journal, journal, tell_snd_tell hobserver hnow]

theorem journal_swap {run run' : List Notice} (h : Notice.Swap run run') (m : Monitor) (i : Nat) :
    (m.journal run).filter (·.1.observer = i) = (m.journal run').filter (·.1.observer = i) := by
  obtain ⟨front, back, hobserver, hnow⟩ := h
  rw [journal_append, journal_append, journal_pair hobserver hnow,
    journal_pair hobserver.symm hnow.symm, tell_comm hobserver hnow]
  simp only [List.filter_append, List.filter_cons, decide_eq_true_eq]
  -- At most one of the two neighbours is the observer in question.
  split
  · next ha =>
    have hb := fun hb => hobserver (ha.trans (Eq.symm hb))
    simp only [if_neg hb]
  · rfl

/-- It does not matter in which order different observers are told at one instant: the monitor is
the same afterwards and can never be told apart, and every observer has left the same events. -/
theorem interleaving_unseen {run run' : List Notice} (h : Notice.Interleaved run run')
    (m : Monitor) :
    m.toldAll run = m.toldAll run' ∧
      (∀ i, (m.journal run).filter (·.1.observer = i) =
        (m.journal run').filter (·.1.observer = i)) ∧
      ∀ clock later, (Session.mk clock (m.toldAll run)).outcomes later =
        (Session.mk clock (m.toldAll run')).outcomes later := by
  have hsame : m.toldAll run = m.toldAll run' ∧
      ∀ i, (m.journal run).filter (·.1.observer = i) =
        (m.journal run').filter (·.1.observer = i) := by
    induction h with
    | refl => exact ⟨rfl, fun _ => rfl⟩
    | tail _ hswap ih =>
        exact ⟨ih.1.trans (toldAll_swap hswap m), fun i => (ih.2 i).trans (journal_swap hswap m i)⟩
  exact ⟨hsame.1, hsame.2, fun clock later => by rw [hsame.1]⟩

/-- A monitor with the standard settings that has made no observer. -/
def unwatched : Monitor := ⟨⟨Settings.standard, []⟩, []⟩

/-- Two observers of one queue. -/
def pair : Monitor := ((unwatched.observe "work" 8).1.observe "work" 8).1

/-- Each of two observers is told of an item, and then that it is gone. -/
def firstThenSecond : List Notice :=
  [⟨0, .ofMillis 5, .added, 1⟩, ⟨1, .ofMillis 5, .added, 1⟩, ⟨0, .ofMillis 9, .removed, 1⟩,
    ⟨1, .ofMillis 9, .dropped, 1⟩]

/-- The same with the observers the other way round at both instants. -/
def secondThenFirst : List Notice :=
  [⟨1, .ofMillis 5, .added, 1⟩, ⟨0, .ofMillis 5, .added, 1⟩, ⟨1, .ofMillis 9, .dropped, 1⟩,
    ⟨0, .ofMillis 9, .removed, 1⟩]

theorem interleaving_unseen_pair :
    pair.observers.length = 2 ∧ Notice.Interleaved firstThenSecond secondThenFirst ∧
      pair.toldAll firstThenSecond = pair.toldAll secondThenFirst ∧
      (∀ i, (pair.journal firstThenSecond).filter (·.1.observer = i) =
        (pair.journal secondThenFirst).filter (·.1.observer = i)) ∧
      ∀ clock later, (Session.mk clock (pair.toldAll firstThenSecond)).outcomes later =
        (Session.mk clock (pair.toldAll secondThenFirst)).outcomes later := by
  have hadded := Notice.Swap.swap [] [⟨0, .ofMillis 9, .removed, 1⟩, ⟨1, .ofMillis 9, .dropped, 1⟩]
    (a := ⟨0, .ofMillis 5, .added, 1⟩) (b := ⟨1, .ofMillis 5, .added, 1⟩) (by decide) rfl
  have hgone := Notice.Swap.swap [⟨1, .ofMillis 5, .added, 1⟩, ⟨0, .ofMillis 5, .added, 1⟩] []
    (a := ⟨0, .ofMillis 9, .removed, 1⟩) (b := ⟨1, .ofMillis 9, .dropped, 1⟩) (by decide) rfl
  have hinterleaved : Notice.Interleaved firstThenSecond secondThenFirst :=
    (Relation.ReflTransGen.single hadded).tail hgone
  exact ⟨by decide +kernel, hinterleaved, interleaving_unseen hinterleaved pair⟩

end Monitor

end WindowedStats
