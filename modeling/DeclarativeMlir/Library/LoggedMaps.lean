import Mathlib.Data.List.Basic
import Mathlib.Logic.Function.Basic
import Mathlib.Tactic.Cases

/-!
# Maps that are recorded in a log

A log is a list of events, each of which makes some entries into a map. An entry under a fresh key
is an update of the map, and so is one that replaces the entries before it, if the last entry
counts. Of two events that are in conflict, a log without conflicts has at most one.
-/

namespace DeclarativeMlir.LoggedMaps

variable {E K V : Type*} [DecidableEq K]

/-- The first entry under a key. -/
def logged (entries : E → List (K × V)) (log : List E) (key : K) : Option V :=
  (log.flatMap entries).lookup key

/-- The last entry under a key. -/
def lastLogged (entries : E → List (K × V)) (log : List E) (key : K) : Option V :=
  (log.flatMap entries).reverse.lookup key

variable {entries : E → List (K × V)} {log : List E} {event : E}

theorem logged_append (entries : E → List (K × V)) (log : List E) (event : E) (key : K) :
    logged entries (log ++ [event]) key =
      (logged entries log key).or ((entries event).lookup key) := by
  rw [logged, List.flatMap_append, List.lookup_append, List.flatMap_singleton]
  rfl

theorem logged_append_of_nil (hentries : entries event = []) :
    logged entries (log ++ [event]) = logged entries log := by
  funext key
  rw [logged_append, hentries, List.lookup_nil, Option.or_none]

theorem logged_append_of_ne {key other : K} {value : V} (hentries : entries event = [(key, value)])
    (hother : other ≠ key) : logged entries (log ++ [event]) other = logged entries log other := by
  have hne : (other == key) = false := by simpa using hother
  rw [logged_append, hentries, List.lookup_cons, hne]
  simp

/-- An entry under a fresh key. -/
theorem logged_append_of_fresh {key : K} {value : V} (hentries : entries event = [(key, value)])
    (hfresh : logged entries log key = none) :
    logged entries (log ++ [event]) = Function.update (logged entries log) key (some value) := by
  funext other
  by_cases hother : other = key
  · rw [logged_append, hentries, hother, hfresh, Function.update_self]
    simp
  · rw [Function.update_of_ne hother]
    exact logged_append_of_ne hentries hother

theorem logged_eq_none_iff {key : K} :
    logged entries log key = none ↔ ∀ event ∈ log, ∀ entry ∈ entries event, entry.1 ≠ key := by
  rw [logged, List.lookup_eq_none_iff]
  constructor
  · intro h event hevent entry hentry heq
    have hne := h entry (List.mem_flatMap.mpr ⟨event, hevent, hentry⟩)
    simp [heq] at hne
  · intro h entry hentry
    obtain ⟨event, hevent, hmem⟩ := List.mem_flatMap.mp hentry
    have hne := h event hevent entry hmem
    simpa using fun heq : key = entry.1 ↦ hne heq.symm

theorem mem_of_lookup {list : List (K × V)} {key : K} {value : V}
    (h : list.lookup key = some value) : (key, value) ∈ list := by
  induction list with
  | nil => simp at h
  | cons entry rest ih =>
    rw [List.lookup_cons] at h
    by_cases heq : key = entry.1
    · simp only [heq, beq_self_eq_true, Option.some.injEq] at h
      rw [heq, ← h]
      exact List.mem_cons_self ..
    · have hne : (key == entry.1) = false := by simpa using heq
      simp only [hne] at h
      exact List.mem_cons_of_mem _ (ih h)

/-- What is found has been entered. -/
theorem mem_of_logged {key : K} {value : V} (h : logged entries log key = some value) :
    ∃ event ∈ log, (key, value) ∈ entries event :=
  List.mem_flatMap.mp (mem_of_lookup h)

/-- An entry that is the only one under its key is found. -/
theorem logged_of_mem {key : K} {value : V} (hevent : event ∈ log)
    (hentry : (key, value) ∈ entries event)
    (hunique : ∀ event' ∈ log, ∀ entry ∈ entries event', entry.1 = key → entry.2 = value) :
    logged entries log key = some value := by
  cases hfound : logged entries log key with
  | none => exact absurd rfl (logged_eq_none_iff.mp hfound event hevent _ hentry)
  | some value' =>
    obtain ⟨event', hevent', hentry'⟩ := mem_of_logged hfound
    rw [← hunique event' hevent' _ hentry' rfl]

theorem lastLogged_append (entries : E → List (K × V)) (log : List E) (event : E) (key : K) :
    lastLogged entries (log ++ [event]) key =
      ((entries event).reverse.lookup key).or (lastLogged entries log key) := by
  rw [lastLogged, List.flatMap_append, List.reverse_append, List.lookup_append,
    List.flatMap_singleton]
  rfl

theorem lastLogged_append_of_nil (hentries : entries event = []) :
    lastLogged entries (log ++ [event]) = lastLogged entries log := by
  funext key
  rw [lastLogged_append, hentries]
  rfl

/-- Two entries that replace what was there. -/
theorem lastLogged_append_pair {first second : K} {value value' : V}
    (hentries : entries event = [(first, value), (second, value')]) :
    lastLogged entries (log ++ [event]) =
      Function.update (Function.update (lastLogged entries log) first (some value)) second
        (some value') := by
  funext key
  rw [lastLogged_append, hentries]
  by_cases hsecond : key = second
  · rw [hsecond, Function.update_self]
    simp
  · rw [Function.update_of_ne hsecond]
    by_cases hfirst : key = first
    · rw [hfirst, Function.update_self]
      have hne : (first == second) = false := by simpa [← hfirst] using hsecond
      simp [List.lookup_cons, hne]
    · rw [Function.update_of_ne hfirst]
      have hne : (key == second) = false := by simpa using hsecond
      have hne' : (key == first) = false := by simpa using hfirst
      simp [List.lookup_cons, hne, hne']

/-- The last entries are all found exactly if no key has two values. -/
theorem lastLogged_all_iff :
    (∀ event ∈ log, ∀ entry ∈ entries event,
        lastLogged entries log entry.1 = some entry.2) ↔
      ∀ event ∈ log, ∀ entry ∈ entries event, ∀ event' ∈ log, ∀ entry' ∈ entries event',
        entry.1 = entry'.1 → entry.2 = entry'.2 := by
  constructor
  · intro h event hevent entry hentry event' hevent' entry' hentry' heq
    have hfound := h event hevent entry hentry
    rw [heq, h event' hevent' entry' hentry'] at hfound
    exact (Option.some.inj hfound).symm
  · intro h event hevent entry hentry
    cases hfound : lastLogged entries log entry.1 with
    | none =>
      have hmem : entry ∈ (log.flatMap entries).reverse :=
        List.mem_reverse.mpr (List.mem_flatMap.mpr ⟨event, hevent, hentry⟩)
      have hne := List.lookup_eq_none_iff.mp hfound entry hmem
      simp at hne
    | some value =>
      have hmem := List.mem_reverse.mp (mem_of_lookup hfound)
      obtain ⟨event', hevent', hentry'⟩ := List.mem_flatMap.mp hmem
      rw [h event hevent entry hentry event' hevent' _ hentry' rfl]

section Pairs

variable {K' : Type*} [DecidableEq K'] {entries : E → List ((K × K') × V)} {key : K} {key' : K'}
  {value : V}

/-- The part of a map of pairs that has the new entry. -/
theorem logged_append_pair_self (hentries : entries event = [((key, key'), value)])
    (hfresh : logged entries log (key, key') = none) :
    (fun second ↦ logged entries (log ++ [event]) (key, second)) =
      Function.update (fun second ↦ logged entries log (key, second)) key' (some value) := by
  rw [logged_append_of_fresh hentries hfresh]
  funext second
  by_cases hsecond : second = key'
  · rw [hsecond, Function.update_self, Function.update_self]
  · have hne : (key, second) ≠ (key, key') := fun h ↦ hsecond (Prod.mk.inj h).2
    rw [Function.update_of_ne hsecond, Function.update_of_ne hne]

/-- The other parts stay as they are. -/
theorem logged_append_pair_of_ne (hentries : entries event = [((key, key'), value)]) {other : K}
    (hother : other ≠ key) (second : K') :
    logged entries (log ++ [event]) (other, second) = logged entries log (other, second) :=
  logged_append_of_ne hentries fun h ↦ hother (Prod.mk.inj h).1

/-- A map of pairs with a new entry, as a map of maps. -/
theorem logged_append_pair (hentries : entries event = [((key, key'), value)])
    (hfresh : logged entries log (key, key') = none) :
    (fun first second ↦ logged entries (log ++ [event]) (first, second)) =
      Function.update (fun first second ↦ logged entries log (first, second)) key
        (Function.update (fun second ↦ logged entries log (key, second)) key' (some value)) := by
  funext first
  by_cases hfirst : first = key
  · rw [hfirst, Function.update_self]
    exact logged_append_pair_self hentries hfresh
  · rw [Function.update_of_ne hfirst]
    funext second
    exact logged_append_pair_of_ne hentries hfirst second

end Pairs

/-! ## Conflicts -/

section Conflicts

variable {Key : Type*} (takes needs : E → List Key)

/-- No event has taken what a later one needs. -/
def ConflictFree (log : List E) : Prop :=
  log.Pairwise fun event event' ↦ ∀ key ∈ needs event', key ∉ takes event

/-- Nothing that the event needs has been taken. -/
def Free (log : List E) (event : E) : Prop :=
  ∀ key ∈ needs event, ∀ earlier ∈ log, key ∉ takes earlier

variable {takes needs}

theorem conflictFree_nil : ConflictFree takes needs [] := List.Pairwise.nil

theorem conflictFree_append_iff :
    ConflictFree takes needs (log ++ [event]) ↔
      ConflictFree takes needs log ∧ Free takes needs log event := by
  rw [ConflictFree, List.pairwise_append]
  simp only [List.pairwise_singleton, List.mem_singleton, forall_eq, true_and, Free]
  constructor
  · rintro ⟨hlog, hevent⟩
    exact ⟨hlog, fun key hkey earlier hearlier ↦ hevent earlier hearlier key hkey⟩
  · rintro ⟨hlog, hevent⟩
    exact ⟨hlog, fun earlier hearlier key hkey ↦ hevent key hkey earlier hearlier⟩

theorem ConflictFree.of_append {rest : List E} (h : ConflictFree takes needs (log ++ rest)) :
    ConflictFree takes needs log :=
  List.Pairwise.sublist (List.sublist_append_left log rest) h

/-- If each event needs what it takes, only one event takes a key. -/
theorem ConflictFree.eq_of_takes (h : ConflictFree takes needs log)
    (hneeds : ∀ event ∈ log, ∀ key ∈ takes event, key ∈ needs event) {event event' : E}
    {key : Key} (hevent : event ∈ log) (hevent' : event' ∈ log) (hkey : key ∈ takes event)
    (hkey' : key ∈ takes event') : event = event' := by
  induction log with
  | nil => simp at hevent
  | cons first rest ih =>
    have hcons := List.pairwise_cons.mp h
    have hrest := fun event hevent ↦ hneeds event (List.mem_cons_of_mem _ hevent)
    rcases List.mem_cons.mp hevent with rfl | hmem
    · rcases List.mem_cons.mp hevent' with rfl | hlater
      · rfl
      · exact absurd hkey (hcons.1 _ hlater key (hneeds _ hevent' key hkey'))
    · rcases List.mem_cons.mp hevent' with rfl | hlater
      · exact absurd hkey' (hcons.1 _ hmem key (hrest _ hmem key hkey))
      · exact ih hcons.2 hrest hmem hlater

end Conflicts

end DeclarativeMlir.LoggedMaps
