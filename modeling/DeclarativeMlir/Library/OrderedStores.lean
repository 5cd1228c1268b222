import Mathlib.Data.List.Induction
import Mathlib.Logic.Function.Basic
import Mathlib.Tactic.Cases

/-!
# Stores made one after another

A list of stores reads cells and copies them into other cells or hands their objects to some other
effect. Made in order, a store reads what the stores before it have left; made at once, every store
reads the memory at the start. `origin` follows a cell back to the cell its object comes from, and
the two ways agree where every cell that is read still holds the object that it held at the start.
-/

namespace DeclarativeMlir.OrderedStores

variable {C V E : Type*}

inductive Store (C E : Type*) where
  | copy (tgt src : C)
  /-- some effect with the objects of cells -/
  | emit (effect : E) (srcs : List C)

inductive Stored (C V E : Type*) where
  | wrote (tgt : C) (obj : V)
  | emitted (effect : E) (objs : List V)

namespace Store

def reads : Store C E → List C
  | copy _ src => [src]
  | emit _ srcs => srcs

def event (mem : C → V) : Store C E → Stored C V E
  | copy tgt src => .wrote tgt (mem src)
  | emit effect srcs => .emitted effect (srcs.map mem)

theorem event_eq_iff (store : Store C E) (mem mem' : C → V) :
    store.event mem = store.event mem' ↔ ∀ cell ∈ store.reads, mem cell = mem' cell := by
  cases store with
  | copy tgt src => simp [event, reads]
  | emit effect srcs => simp [event, reads]

variable [DecidableEq C]

/-- The memory behind a store. -/
def run (mem : C → V) : Store C E → C → V
  | copy tgt src => Function.update mem tgt (mem src)
  | emit _ _ => mem

/-- The cell whose object a cell holds behind a store. -/
def source : Store C E → C → C
  | copy tgt src, cell => if cell = tgt then src else cell
  | emit _ _, cell => cell

theorem run_apply (store : Store C E) (mem : C → V) (cell : C) :
    store.run mem cell = mem (store.source cell) := by
  cases store with
  | copy tgt src =>
    rw [run, source, Function.update_apply, apply_ite mem]
  | emit effect srcs => rfl

end Store

/-- The effects of stores that all read the same memory. -/
def atOnce (stores : List (Store C E)) (mem : C → V) : List (Stored C V E) :=
  stores.map (Store.event mem)

variable [DecidableEq C]

/-- The effects of stores made one after another. -/
def inOrder : List (Store C E) → (C → V) → List (Stored C V E)
  | [], _ => []
  | store :: stores, mem => store.event mem :: inOrder stores (store.run mem)

/-- The memory behind stores made one after another. -/
def after (stores : List (Store C E)) (mem : C → V) : C → V :=
  stores.foldl (fun mem store ↦ store.run mem) mem

/-- The cell whose object a cell holds behind `stores`. -/
def origin : List (Store C E) → C → C
  | [], cell => cell
  | store :: stores, cell => store.source (origin stores cell)

theorem after_apply (stores : List (Store C E)) (mem : C → V) (cell : C) :
    after stores mem cell = mem (origin stores cell) := by
  induction stores generalizing mem with
  | nil => rfl
  | cons store stores ih =>
    calc
      after (store :: stores) mem cell = after stores (store.run mem) cell := rfl
      _ = store.run mem (origin stores cell) := ih _
      _ = mem (origin (store :: stores) cell) := store.run_apply mem _

theorem inOrder_append (stores stores' : List (Store C E)) (mem : C → V) :
    inOrder (stores ++ stores') mem = inOrder stores mem ++ inOrder stores' (after stores mem) := by
  induction stores generalizing mem with
  | nil => rfl
  | cons store stores ih =>
    calc
      inOrder (store :: stores ++ stores') mem =
          store.event mem :: inOrder (stores ++ stores') (store.run mem) := rfl
      _ = store.event mem :: (inOrder stores (store.run mem) ++
          inOrder stores' (after stores (store.run mem))) := by rw [ih]

theorem length_inOrder (stores : List (Store C E)) (mem : C → V) :
    (inOrder stores mem).length = stores.length := by
  induction stores generalizing mem with
  | nil => rfl
  | cons store stores ih => rw [inOrder, List.length_cons, List.length_cons, ih]

/-- Stores that leave the memory as it is may be made in any way. -/
theorem inOrder_of_run_eq {stores : List (Store C E)} {mem : C → V}
    (h : ∀ store ∈ stores, store.run mem = mem) : inOrder stores mem = atOnce stores mem := by
  induction stores with
  | nil => rfl
  | cons store stores ih =>
    rw [inOrder, h store List.mem_cons_self, ih fun store hmem ↦ h store (.tail _ hmem)]
    rfl

/-- No store reads a cell whose object the stores before it have changed. -/
def ReadsFirst (mem : C → V) (stores : List (Store C E)) : Prop :=
  ∀ front store back, stores = front ++ store :: back →
    ∀ cell ∈ store.reads, mem (origin front cell) = mem cell

theorem readsFirst_nil (mem : C → V) : ReadsFirst mem ([] : List (Store C E)) := by
  intro front store back h
  simp at h

theorem readsFirst_concat (mem : C → V) (stores : List (Store C E)) (store : Store C E) :
    ReadsFirst mem (stores ++ [store]) ↔
      ReadsFirst mem stores ∧ ∀ cell ∈ store.reads, mem (origin stores cell) = mem cell := by
  constructor
  · intro h
    constructor
    · intro front store' back heq
      apply h front store' (back ++ [store])
      rw [heq, List.append_assoc, List.cons_append]
    · exact h stores store [] rfl
  · intro h front store' back heq
    rcases List.eq_nil_or_concat back with hback | ⟨back', last, hback⟩
    · rw [hback] at heq
      have hparts := List.append_inj' heq rfl
      rw [← hparts.1, ← List.head_eq_of_cons_eq hparts.2]
      exact h.2
    · rw [hback, List.concat_eq_append, ← List.cons_append, ← List.append_assoc] at heq
      exact h.1 front store' back' (List.append_inj' heq rfl).1

/-- Made in order, the stores have the effects they have at once exactly if none of them reads a
cell whose object has changed. -/
theorem inOrder_eq_atOnce_iff (stores : List (Store C E)) (mem : C → V) :
    inOrder stores mem = atOnce stores mem ↔ ReadsFirst mem stores := by
  induction stores using List.reverseRecOn with
  | nil => simp [readsFirst_nil, inOrder, atOnce]
  | append_singleton stores store ih =>
    have hlength : (inOrder stores mem).length = (atOnce stores mem).length := by
      rw [length_inOrder, atOnce, List.length_map]
    have hlast : store.event (after stores mem) = store.event mem ↔
        ∀ cell ∈ store.reads, mem (origin stores cell) = mem cell := by
      rw [store.event_eq_iff]
      simp only [after_apply]
    rw [readsFirst_concat, ← ih, ← hlast, inOrder_append, atOnce, List.map_append,
      List.map_singleton, inOrder, inOrder, ← atOnce]
    constructor
    · intro h
      have hparts := List.append_inj h hlength
      exact ⟨hparts.1, List.head_eq_of_cons_eq hparts.2⟩
    · intro h
      rw [h.1, h.2]

end DeclarativeMlir.OrderedStores
