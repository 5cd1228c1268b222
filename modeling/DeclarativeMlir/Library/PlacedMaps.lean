import DeclarativeMlir.Library.LoggedMaps

/-!
# Maps that keep a value in a place

A map is implemented by places that hold values. What a get finds depends on the last set in the
place of its key. Two ways to choose the places let every get find the same, whatever is stored and
whatever the places hold at first, if the last sets are the same.
-/

namespace DeclarativeMlir.PlacedMaps

open LoggedMaps

variable {K P P' V : Type*} [DecidableEq P] [DecidableEq P']

/-- A set stores the value with the number `val`. -/
inductive Access (K : Type*) where
  | set (key : K) (val : ℕ)
  | get (key : K)

def Access.key : Access K → K
  | .set key _ => key
  | .get key => key

def Access.entries (place : K → P) : Access K → List (P × ℕ)
  | .set key val => [(place key, val)]
  | .get _ => []

/-- The number of the value that has been stored last in the place of a key. -/
def lastSet (place : K → P) (log : List (Access K)) (key : K) : Option ℕ :=
  lastLogged (Access.entries place) log (place key)

/-- What the gets find. -/
def reads (place : K → P) (vals : ℕ → V) : (P → V) → List (Access K) → List V
  | _, [] => []
  | memory, .set key val :: log =>
    reads place vals (Function.update memory (place key) (vals val)) log
  | memory, .get key :: log => memory (place key) :: reads place vals memory log

/-- What the places hold behind the accesses of a log. -/
def contents (place : K → P) (vals : ℕ → V) (initial : P → V) (log : List (Access K)) (p : P) : V :=
  ((lastLogged (Access.entries place) log p).map vals).getD (initial p)

variable {place : K → P} {place' : K → P'} {vals : ℕ → V} {initial : P → V} {initial' : P' → V}

theorem contents_nil : contents place vals initial [] = initial := rfl

theorem contents_set (log : List (Access K)) (key : K) (val : ℕ) :
    contents place vals initial (log ++ [.set key val]) =
      Function.update (contents place vals initial log) (place key) (vals val) := by
  funext p
  rw [contents, lastLogged_append]
  by_cases hp : p = place key
  · rw [hp, Function.update_self]
    simp [Access.entries]
  · have hne : (p == place key) = false := by simpa using hp
    rw [Function.update_of_ne hp, contents]
    simp [Access.entries, List.lookup_cons, hne]

theorem contents_get (log : List (Access K)) (key : K) :
    contents place vals initial (log ++ [.get key]) = contents place vals initial log := by
  have hentries : Access.entries place (.get key) = [] := rfl
  funext p
  rw [contents, lastLogged_append_of_nil hentries, contents]

/-- Two maps let the gets behind `before` find the same if each of these gets does. -/
theorem reads_eq_iff (before log : List (Access K)) :
    reads place vals (contents place vals initial before) log =
        reads place' vals (contents place' vals initial' before) log ↔
      ∀ middle key after, log = middle ++ .get key :: after →
        contents place vals initial (before ++ middle) (place key) =
          contents place' vals initial' (before ++ middle) (place' key) := by
  induction log generalizing before with
  | nil =>
    refine ⟨fun _ middle key after h ↦ ?_, fun _ ↦ rfl⟩
    simp at h
  | cons access log ih =>
    have hsplit : ∀ middle key after, access :: log = middle ++ Access.get key :: after ↔
        middle = [] ∧ access = .get key ∧ log = after ∨
          ∃ rest, middle = access :: rest ∧ log = rest ++ .get key :: after := by
      intro middle key after
      cases middle with
      | nil => simp
      | cons first rest =>
        simp only [List.cons_append, List.cons.injEq, reduceCtorEq, false_and, false_or]
        exact ⟨fun h ↦ ⟨rest, ⟨h.1.symm, rfl⟩, h.2⟩, fun ⟨_, ⟨hfirst, hrest⟩, hlog⟩ ↦
          ⟨hfirst.symm, hrest ▸ hlog⟩⟩
    cases access with
    | set key val =>
      rw [reads, reads, ← contents_set, ← contents_set, ih]
      constructor
      · intro h middle other after hlog
        rcases (hsplit _ _ _).mp hlog with ⟨-, heq, -⟩ | ⟨rest, rfl, hrest⟩
        · cases heq
        · simpa using h rest other after hrest
      · intro h rest other after hlog
        simpa using h (.set key val :: rest) other after (by rw [hlog, List.cons_append])
    | get key =>
      have hget := ih (before ++ [.get key])
      rw [contents_get, contents_get] at hget
      rw [reads, reads, List.cons.injEq, hget]
      constructor
      · rintro ⟨hfirst, h⟩ middle other after hlog
        rcases (hsplit _ _ _).mp hlog with ⟨rfl, heq, -⟩ | ⟨rest, rfl, hrest⟩
        · rw [List.append_nil, ← Access.get.inj heq]
          exact hfirst
        · simpa using h rest other after hrest
      · intro h
        refine ⟨by simpa using h [] key log rfl, fun rest other after hlog ↦ ?_⟩
        simpa using h (.get key :: rest) other after (by rw [hlog, List.cons_append])

/-- Places that hold anything at first behave like places that hold `nil` exactly if the last sets
are the same, and there is one for each get. -/
theorem reads_eq_always_iff {nil other : V} (hne : other ≠ nil) (log : List (Access K)) :
    (∀ vals initial, reads place vals initial log = reads place' vals (fun _ ↦ nil) log) ↔
      ∀ before key after, log = before ++ .get key :: after →
        ∃ val, lastSet place before key = some val ∧ lastSet place' before key = some val := by
  have hreads : ∀ vals (initial : P → V),
      reads place vals initial log = reads place' vals (fun _ ↦ nil) log ↔
        ∀ before key after, log = before ++ .get key :: after →
          ((lastSet place before key).map vals).getD (initial (place key)) =
            ((lastSet place' before key).map vals).getD nil := by
    intro vals initial
    have h := @reads_eq_iff K P P' V _ _ place place' vals initial (fun _ ↦ nil) [] log
    rw [contents_nil, contents_nil] at h
    rw [h]
    rfl
  simp only [hreads]
  constructor
  · intro h before key after hlog
    cases hlast : lastSet place before key with
    | none =>
      have hnil := h (fun _ ↦ nil) (fun _ ↦ other) before key after hlog
      rw [hlast] at hnil
      cases hlast' : lastSet place' before key <;> simp [hlast', hne] at hnil
    | some val =>
      have hval := h (Function.update (fun _ ↦ nil) val other) (fun _ ↦ nil) before key after hlog
      rw [hlast] at hval
      cases hlast' : lastSet place' before key with
      | none => simp [hlast', hne] at hval
      | some val' =>
        by_cases heq : val' = val
        · exact ⟨val, rfl, congrArg some heq⟩
        · simp [hlast', heq, hne] at hval
  · intro h vals initial before key after hlog
    obtain ⟨val, hlast, hlast'⟩ := h before key after hlog
    rw [hlast, hlast']
    rfl

end DeclarativeMlir.PlacedMaps
