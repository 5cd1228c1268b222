import DeclarativeMlir.Library.AcyclicWalks

/-!
# Definitions of called functions

`getFcnDef` looks for the function that a value holds. From an allocated variable it goes on to the
source of the first `lua.copy` among its users, whether that op writes the variable or reads it.
-/

namespace DeclarativeMlir.Lua

open Relation

/-- The ops that define values, as far as they are looked at. -/
inductive DefiningOp where
  /-- a `luaopt.pack_func`, by its number -/
  | packFunc (op : ℕ)
  | alloc
  /-- a `lua.get_captures` of the capture of a `luaopt.pack_func` -/
  | getCaptures (owner : ℕ)
  /-- any other op, or a block argument -/
  | other
  deriving DecidableEq, Repr

/-- A user of a value. -/
inductive UseOp (n : ℕ) where
  | copy (tgt val : Fin n)
  | other
  deriving DecidableEq, Repr

/-- The values of a module with their users. A copy is a user of its target and of its source. -/
structure CopyGraph (n : ℕ) where
  definingOp : Fin n → DefiningOp
  getOpUses : Fin n → List (UseOp n)
  operand_of_mem : ∀ val tgt src, .copy tgt src ∈ getOpUses val → val = tgt ∨ val = src
  mem_of_operand : ∀ val tgt src, .copy tgt src ∈ getOpUses val →
    .copy tgt src ∈ getOpUses tgt ∧ .copy tgt src ∈ getOpUses src

namespace CopyGraph

variable {n : ℕ} (G : CopyGraph n)

/-- The source of the first copy among the users of a value. -/
def firstCopySource (val : Fin n) : Option (Fin n) :=
  (G.getOpUses val).findSome? fun
    | .copy _ src => some src
    | .other => none

/-- The function that a value holds, or nothing if the calls are nested too deep for the fuel. -/
def getFcnDef : ℕ → Fin n → Option (Option ℕ)
  | 0, _ => none
  | fuel + 1, val =>
    match G.definingOp val with
    | .packFunc op => some (some op)
    | .alloc =>
      match G.firstCopySource val with
      | some src => getFcnDef fuel src
      | none => some none
    | .getCaptures owner => some (some owner)
    | .other => some none

def Terminates (val : Fin n) : Prop := ∃ fuel, G.getFcnDef fuel val ≠ none

/-- The first copy that uses an allocated variable has the other value as its source. -/
def FirstCopy (val src : Fin n) : Prop :=
  G.definingOp val = .alloc ∧ G.firstCopySource val = some src

instance (val src : Fin n) : Decidable (G.FirstCopy val src) := by
  unfold FirstCopy
  infer_instance

theorem getFcnDef_succ_of_firstCopy {val src : Fin n} (h : G.FirstCopy val src) (fuel : ℕ) :
    G.getFcnDef (fuel + 1) val = G.getFcnDef fuel src := by
  rw [getFcnDef, h.1]
  simp only [h.2]

theorem getFcnDef_one_of_not_firstCopy {val : Fin n} (h : ∀ src, ¬ G.FirstCopy val src) :
    G.getFcnDef 1 val ≠ none := by
  rw [getFcnDef]
  cases hop : G.definingOp val with
  | packFunc op => simp
  | alloc =>
    cases hsource : G.firstCopySource val with
    | none => simp
    | some src => exact (h src ⟨hop, hsource⟩).elim
  | getCaptures owner => simp
  | other => simp

/-- The calls end where the walk along first copies ends. -/
theorem terminates_iff_acc (val : Fin n) :
    G.Terminates val ↔ Acc (fun src val ↦ G.FirstCopy val src) val := by
  constructor
  · rintro ⟨fuel, hfuel⟩
    induction fuel generalizing val with
    | zero => exact (hfuel rfl).elim
    | succ fuel ih =>
      refine Acc.intro _ fun src hfirst ↦ ih src ?_
      rwa [← G.getFcnDef_succ_of_firstCopy hfirst]
  · intro hacc
    induction hacc with
    | intro val _ ih =>
      by_cases hfirst : ∃ src, G.FirstCopy val src
      · obtain ⟨src, hfirst⟩ := hfirst
        obtain ⟨fuel, hfuel⟩ := ih src hfirst
        exact ⟨fuel + 1, by rwa [G.getFcnDef_succ_of_firstCopy hfirst]⟩
      · exact ⟨1, G.getFcnDef_one_of_not_firstCopy (not_exists.mp hfirst)⟩

theorem terminates_iff (val : Fin n) : G.Terminates val ↔
    ∀ src, ReflTransGen G.FirstCopy val src → ¬ TransGen G.FirstCopy src src := by
  rw [terminates_iff_acc, AcyclicWalks.acc_iff_acyclic]

/-- `getFcnDef` terminates for every value exactly if first copies form no cycle. -/
theorem getFcnDef_terminates_iff :
    (∀ val, G.Terminates val) ↔ ∀ val, ¬ TransGen G.FirstCopy val val := by
  constructor
  · intro h val
    exact (G.terminates_iff val).mp (h val) val ReflTransGen.refl
  · intro h val
    exact (G.terminates_iff val).mpr fun src _ ↦ h src

/-- A copy that comes first among the users of its source is a cycle of one variable. -/
theorem not_terminates_of_firstCopy_self {val : Fin n} (h : G.FirstCopy val val) :
    ¬ G.Terminates val := by
  intro hterminates
  exact (G.terminates_iff val).mp hterminates val ReflTransGen.refl (TransGen.single h)

end CopyGraph

/-- Two global variables, of which the second is assigned the first, which is then called. -/
def assignedGlobal : CopyGraph 2 where
  definingOp := fun _ ↦ .alloc
  getOpUses := fun val ↦ if val = 0 then [.other, .copy 1 0] else [.copy 1 0]
  operand_of_mem := by decide
  mem_of_operand := by decide

theorem getFcnDef_not_terminates : ¬ ∀ val, assignedGlobal.Terminates val := by
  intro h
  have hself : assignedGlobal.FirstCopy 0 0 := by decide
  exact assignedGlobal.not_terminates_of_firstCopy_self hself (h 0)

end DeclarativeMlir.Lua
