import Mathlib.Data.Nat.Basic
import Mathlib.Logic.Function.Basic
import Mathlib.Tactic.Cases

/-!
# Ascending element-by-element copies

A memory is a function from an arbitrary address type. `copyForward` moves `n` elements from
the addresses `src 0, src 1, ...` to the addresses `dst 0, dst 1, ...`, in ascending order, and
every iteration reads the memory that the earlier iterations have left. Two laws describe it.
When no destination is a source the copy is exact. When the destinations are the sources moved
up by `shift`, the copied elements repeat the first `shift` elements with period `shift`.
-/

namespace DeclarativeMlir.ForwardCopy

variable {Address Element : Type*} [DecidableEq Address]

/-- The loop `for i = 0 to n do memory[dst i] := memory[src i]`. -/
def copyForward (src dst : ℕ → Address) : ℕ → (Address → Element) → (Address → Element)
  | 0, memory => memory
  | n + 1, memory =>
    let copied := copyForward src dst n memory
    Function.update copied (dst n) (copied (src n))

@[simp]
theorem copyForward_zero (src dst : ℕ → Address) (memory : Address → Element) :
    copyForward src dst 0 memory = memory := rfl

theorem copyForward_succ (src dst : ℕ → Address) (n : ℕ) (memory : Address → Element) :
    copyForward src dst (n + 1) memory =
      Function.update (copyForward src dst n memory) (dst n)
        (copyForward src dst n memory (src n)) := rfl

/-- Addresses that are no destination keep their content. -/
theorem copyForward_of_ne (src dst : ℕ → Address) (n : ℕ) (memory : Address → Element)
    (address : Address) (hne : ∀ i < n, address ≠ dst i) :
    copyForward src dst n memory address = memory address := by
  induction n with
  | zero => rfl
  | succ n ih =>
    have hlast := hne n (Nat.lt_succ_self n)
    rw [copyForward_succ, Function.update_of_ne hlast]
    exact ih (fun i hi ↦ hne i (Nat.lt_succ_of_lt hi))

/-- A copy whose destinations are never sources transports every element. -/
theorem copyForward_disjoint (src dst : ℕ → Address) (n : ℕ) (memory : Address → Element)
    (hdst : Function.Injective dst) (hdisjoint : ∀ i < n, ∀ j < n, src i ≠ dst j)
    (i : ℕ) (hi : i < n) :
    copyForward src dst n memory (dst i) = memory (src i) := by
  induction n with
  | zero => omega
  | succ n ih =>
    have hsource : ∀ j ≤ n, copyForward src dst n memory (src j) = memory (src j) := by
      intro j hj
      exact copyForward_of_ne src dst n memory (src j)
        (fun k hk ↦ hdisjoint j (by omega) k (by omega))
    rw [copyForward_succ]
    by_cases hlast : i = n
    · subst hlast
      rw [Function.update_self]
      exact hsource i le_rfl
    · rw [Function.update_of_ne (fun h ↦ hlast (hdst h))]
      exact ih (fun i hi j hj ↦ hdisjoint i (by omega) j (by omega)) (by omega)

/-- Copying a run of cells onto itself, moved up by a positive `shift`, repeats the first
`shift` elements periodically: an iteration past the first `shift` ones reads what an earlier
iteration wrote. -/
theorem copyForward_shift (src : ℕ → Address) (shift n : ℕ) (memory : Address → Element)
    (hsrc : Function.Injective src) (hshift : 0 < shift) (j : ℕ) (hj : j < shift + n) :
    copyForward src (fun i ↦ src (shift + i)) n memory (src j) = memory (src (j % shift)) := by
  induction n generalizing j with
  | zero => rw [copyForward_zero, Nat.mod_eq_of_lt (by omega)]
  | succ n ih =>
    rw [copyForward_succ]
    by_cases hlast : j = shift + n
    · subst hlast
      rw [Function.update_self, ih n (by omega), Nat.add_mod_left]
    · rw [Function.update_of_ne (fun h ↦ hlast (hsrc h))]
      exact ih j (by omega)

/-- Without a shift the copy is the identity. -/
theorem copyForward_self (src : ℕ → Address) (n : ℕ) (memory : Address → Element) :
    copyForward src src n memory = memory := by
  induction n with
  | zero => rfl
  | succ n ih => rw [copyForward_succ, ih, Function.update_eq_self]

end DeclarativeMlir.ForwardCopy
