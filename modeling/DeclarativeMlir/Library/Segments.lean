import Mathlib.Algebra.Order.Ring.Int
import Mathlib.Data.List.Induction
import Mathlib.Data.List.SplitLengths
import Mathlib.Tactic.Cases

/-!
# Segments of a list

The segment with a given index, for segment lengths that are read one by one.
-/

namespace DeclarativeMlir.Segments

variable {α : Type*}

theorem sum_take_add_getElem_le (lengths : List ℕ) {i : ℕ} (hi : i < lengths.length) :
    (lengths.take i).sum + lengths[i] ≤ lengths.sum := by
  induction lengths generalizing i with
  | nil => simp at hi
  | cons length lengths ih =>
    cases i with
    | zero => simp
    | succ i =>
      have htail := ih (Nat.lt_of_succ_lt_succ hi)
      simp only [List.take_succ_cons, List.sum_cons, List.getElem_cons_succ]
      omega

/-- A segment starts where the lengths before it add up to. -/
theorem getElem?_splitLengths (lengths : List ℕ) (l : List α) {i : ℕ} (hi : i < lengths.length) :
    (lengths.splitLengths l)[i]? = some ((l.drop (lengths.take i).sum).take lengths[i]) := by
  induction lengths generalizing l i with
  | nil => simp at hi
  | cons length lengths ih =>
    cases i with
    | zero => simp
    | succ i =>
      rw [List.splitLengths_cons, List.getElem?_cons_succ, ih _ (Nat.lt_of_succ_lt_succ hi)]
      simp [List.drop_drop]

theorem mapM_eq_some_iff_map {β : Type*} {f : α → Option β} {xs : List α} {ys : List β} :
    xs.mapM f = some ys ↔ xs.map f = ys.map some := by
  induction xs generalizing ys with
  | nil => cases ys <;> simp
  | cons x xs ih =>
    cases ys with
    | nil => simp [Option.bind_eq_some_iff]
    | cons y ys => simp [Option.bind_eq_some_iff, ih]

/-- Collecting the entries of a list by their indices. -/
theorem mapM_range_eq_some {f : ℕ → Option α} {l : List α} (h : ∀ i < l.length, f i = l[i]?) :
    (List.range l.length).mapM f = some l := by
  induction l using List.reverseRecOn with
  | nil => rfl
  | append_singleton l a ih =>
    have hinit := ih fun i hi ↦ by
      rw [h i (by simp; omega), List.getElem?_append_left hi]
    have hlast := h l.length (by simp)
    rw [List.getElem?_concat_length] at hlast
    rw [List.length_append, List.length_singleton, List.range_succ, List.mapM_append, hinit]
    simp [hlast]

/-! ## Lengths that are read one by one -/

section Reader

variable {K σ : Type*}

/-- Reading at each key in turn gives `lengths`, where a read may change the state. -/
inductive Reads (read : K → σ → Option (ℕ × σ)) : List K → σ → List ℕ → Prop where
  | nil (state : σ) : Reads read [] state []
  | cons {key : K} {keys : List K} {state state' : σ} {length : ℕ} {lengths : List ℕ}
    (hread : read key state = some (length, state')) (hreads : Reads read keys state' lengths) :
    Reads read (key :: keys) state (length :: lengths)

variable {read : K → σ → Option (ℕ × σ)} {keys : List K} {state : σ} {lengths : List ℕ}

theorem Reads.length_eq (h : Reads read keys state lengths) : lengths.length = keys.length := by
  induction h with
  | nil => rfl
  | cons _ _ ih => simp [ih]

/-- Adding up the lengths in front of `i` leaves the reader at the length of `i`. -/
theorem Reads.foldlM (h : Reads read keys state lengths) {add : ℕ × σ → K → Option (ℕ × σ)}
    (hadd : ∀ acc state key,
      add (acc, state) key = (read key state).map fun next ↦ (acc + next.1, next.2))
    {i : ℕ} (hi : i < keys.length) (acc : ℕ) :
    ∃ state' state'',
      (keys.take i).foldlM add (acc, state) = some (acc + (lengths.take i).sum, state') ∧
      read keys[i] state' = some (lengths.get ⟨i, h.length_eq ▸ hi⟩, state'') := by
  induction h generalizing i acc with
  | nil => simp at hi
  | @cons key keys state state' length lengths hread hreads ih =>
    cases i with
    | zero => exact ⟨state, state', by simp, hread⟩
    | succ i =>
      obtain ⟨last, last', hfold, hlast⟩ := ih (Nat.lt_of_succ_lt_succ hi) (acc + length)
      refine ⟨last, last', ?_, hlast⟩
      rw [List.take_succ_cons, List.foldlM_cons, hadd, hread, List.take_succ_cons, List.sum_cons,
        ← Nat.add_assoc]
      exact hfold

/-- A reader without a state. -/
theorem Reads.ofFunction (length : K → ℕ) (keys : List K) :
    Reads (fun key (_ : Unit) ↦ some (length key, ())) keys () (keys.map length) := by
  induction keys with
  | nil => exact .nil ()
  | cons key keys ih => exact .cons rfl ih

/-- A reader that goes along a list of lengths. -/
theorem Reads.ofList {T : Type*} {read : K → List T → Option (ℕ × List T)} {length : T → ℕ}
    (hread : ∀ key size sizes, read key (size :: sizes) = some (length size, sizes))
    {keys : List K} {sizes : List T} (hlength : sizes.length = keys.length) :
    Reads read keys sizes (sizes.map length) := by
  induction keys generalizing sizes with
  | nil =>
    rw [List.length_eq_zero_iff.mp hlength]
    exact .nil []
  | cons key keys ih =>
    cases sizes with
    | nil => simp at hlength
    | cons size sizes => exact .cons (hread key size sizes) (ih (Nat.succ.inj hlength))

end Reader

end DeclarativeMlir.Segments
