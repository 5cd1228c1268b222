import Mathlib.Algebra.Order.Ring.Int
import Mathlib.Data.List.Perm.Basic
import Mathlib.Data.Nat.Notation
import Mathlib.Order.Basic
import Mathlib.Algebra.Order.Group.Nat
import Mathlib.Tactic.Cases

/-!
# Interning of lists up to order

A list is sorted by an address of its elements, so that its order is forgotten where different
elements have different addresses. A table interns keys: it hands out the first entry with the
same hash and the same key, or a new one.
-/

namespace DeclarativeMlir.Interning

/-! ## Sorted lists -/

section SortedLists

variable {α : Type*} (address : α → ℕ)

def sortBy (xs : List α) : List α := xs.mergeSort fun a b ↦ decide (address a ≤ address b)

theorem sortBy_perm (xs : List α) : (sortBy address xs).Perm xs := List.mergeSort_perm _ _

theorem sortBy_pairwise (xs : List α) :
    (sortBy address xs).Pairwise fun a b ↦ address a ≤ address b := by
  have htrans (a b c : α) (hab : decide (address a ≤ address b) = true)
      (hbc : decide (address b ≤ address c) = true) : decide (address a ≤ address c) = true := by
    simp only [decide_eq_true_eq] at hab hbc ⊢
    exact hab.trans hbc
  have htotal (a b : α) :
      (decide (address a ≤ address b) || decide (address b ≤ address a)) = true := by
    simpa using le_total (address a) (address b)
  have hpairwise := List.pairwise_mergeSort htrans htotal xs
  simpa only [sortBy, decide_eq_true_eq] using hpairwise

/-- Lists of elements with addresses of their own have the same sorted list exactly if they have
the same elements. -/
theorem sortBy_eq_iff {xs ys : List α}
    (hdistinct : ∀ a ∈ xs, ∀ b ∈ ys, address a = address b → a = b) :
    sortBy address xs = sortBy address ys ↔ xs.Perm ys := by
  constructor
  · intro heq
    have hperm : (sortBy address ys).Perm xs := heq ▸ sortBy_perm address xs
    exact hperm.symm.trans (sortBy_perm address ys)
  · intro hperm
    have hsorted := ((sortBy_perm address xs).trans hperm).trans (sortBy_perm address ys).symm
    refine List.Perm.eq_of_pairwise ?_ (sortBy_pairwise address xs) (sortBy_pairwise address ys)
      hsorted
    intro a b ha hb hab hba
    have hamem : a ∈ xs := (sortBy_perm address xs).mem_iff.mp ha
    have hbmem : b ∈ ys := (sortBy_perm address ys).mem_iff.mp hb
    exact hdistinct a hamem b hbmem (le_antisymm hab hba)

end SortedLists

/-! ## Tables -/

section Table

variable {κ : Type*} (hash : κ → ℕ) (eq : κ → κ → Bool)

/-- The first entry of a table with the hash of the key that is equal to it. -/
def find (table : List κ) (key : κ) : Option ℕ :=
  table.findIdx? fun entry ↦ hash entry == hash key && eq key entry

/-- The entry of a key, and the table that has it. -/
def intern (table : List κ) (key : κ) : ℕ × List κ :=
  match find hash eq table key with
  | some idx => (idx, table)
  | none => (table.length, table ++ [key])

/-- The table after any number of keys. -/
def internAll (table : List κ) : List κ → List κ
  | [] => table
  | key :: keys => internAll (intern hash eq table key).2 keys

variable {hash eq}

/-- What is in the table stays where it is. -/
theorem find_intern {table : List κ} {key : κ} {idx : ℕ} (hfind : find hash eq table key = some idx)
    (other : κ) : find hash eq (intern hash eq table other).2 key = some idx := by
  unfold intern
  cases find hash eq table other with
  | some _ => exact hfind
  | none =>
    have hsome : table.findIdx? (fun entry ↦ hash entry == hash key && eq key entry) = some idx :=
      hfind
    rw [find, List.findIdx?_append, hsome]
    rfl

theorem find_internAll {key : κ} {idx : ℕ} (keys : List κ) {table : List κ}
    (hfind : find hash eq table key = some idx) :
    find hash eq (internAll hash eq table keys) key = some idx := by
  induction keys generalizing table with
  | nil => exact hfind
  | cons other keys ih => exact ih (find_intern hfind other)

variable (heq : ∀ a b, eq a b = true ↔ a = b)
include heq

theorem find_test_iff (key entry : κ) :
    (hash entry == hash key && eq key entry) = true ↔ key = entry := by
  rw [Bool.and_eq_true, beq_iff_eq, heq]
  exact ⟨fun h ↦ h.2, fun h ↦ ⟨by rw [h], h⟩⟩

/-- A key has an entry, in front of which there is no equal one. -/
theorem intern_spec (table : List κ) (key : κ) :
    (intern hash eq table key).2[(intern hash eq table key).1]? = some key ∧
      find hash eq (intern hash eq table key).2 key = some (intern hash eq table key).1 := by
  unfold intern
  cases hfind : find hash eq table key with
  | some idx =>
    obtain ⟨hlt, htest, -⟩ := List.findIdx?_eq_some_iff_getElem.mp hfind
    rw [find_test_iff heq] at htest
    exact ⟨by rw [List.getElem?_eq_getElem hlt, ← htest], hfind⟩
  | none =>
    have hself : eq key key = true := (heq key key).mpr rfl
    refine ⟨by simp, ?_⟩
    have hnone : table.findIdx? (fun entry ↦ hash entry == hash key && eq key entry) = none := hfind
    rw [find, List.findIdx?_append, hnone]
    simp [hself]

variable (hash) in
/-- Two keys have the same entry exactly if they are equal, whatever is interned in between. -/
theorem intern_eq_iff (table : List κ) (keys : List κ) (a b : κ) :
    (intern hash eq (internAll hash eq (intern hash eq table a).2 keys) b).1 =
      (intern hash eq table a).1 ↔ a = b := by
  obtain ⟨table', htable'⟩ :
    ∃ table', table' = internAll hash eq (intern hash eq table a).2 keys := ⟨_, rfl⟩
  have hfind : find hash eq table' a = some (intern hash eq table a).1 :=
    htable' ▸ find_internAll keys (intern_spec heq table a).2
  rw [← htable']
  constructor
  · intro hidx
    have hb : find hash eq (intern hash eq table' b).2 b = some (intern hash eq table' b).1 :=
      (intern_spec heq table' b).2
    have ha := find_intern hfind b
    rw [find, List.findIdx?_eq_some_iff_getElem] at ha hb
    obtain ⟨hlt, htesta, -⟩ := ha
    obtain ⟨hlt', htestb, -⟩ := hb
    rw [find_test_iff heq] at htesta htestb
    simp only [hidx] at htestb
    exact htesta.trans htestb.symm
  · rintro rfl
    unfold intern
    rw [hfind]
    rfl

end Table

end DeclarativeMlir.Interning
