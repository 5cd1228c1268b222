import Mathlib.Data.Fintype.EquivFin
import Mathlib.Logic.Relation

/-!
# Walks without cycles

Among finitely many things, walks along a relation end exactly if they do not reach a cycle.
-/

namespace DeclarativeMlir.AcyclicWalks

open Relation

variable {α : Type*} {step : α → α → Prop}

/-- Nothing on a cycle is accessible. -/
theorem not_transGen_of_acc {a : α} (hacc : Acc (fun b a ↦ step a b) a) : ¬ TransGen step a a := by
  induction hacc with
  | intro a _ ih =>
    intro hcycle
    obtain ⟨b, hstep, hrest⟩ := TransGen.head'_iff.mp hcycle
    exact ih b hstep (TransGen.tail' hrest hstep)

theorem acc_of_reflTransGen {a b : α} (hacc : Acc (fun b a ↦ step a b) a)
    (hreach : ReflTransGen step a b) : Acc (fun b a ↦ step a b) b := by
  induction hreach with
  | refl => exact hacc
  | tail _ hstep ih => exact ih.inv hstep

/-- A walk ends exactly if no cycle can be reached. -/
theorem acc_iff_acyclic [Finite α] (a : α) : Acc (fun b a ↦ step a b) a ↔
    ∀ b, ReflTransGen step a b → ¬ TransGen step b b := by
  constructor
  · intro hacc b hreach
    exact not_transGen_of_acc (acc_of_reflTransGen hacc hreach)
  · intro hacyclic
    -- Restricted to what can be reached, the walks descend.
    let later (b c : {b // ReflTransGen step a b}) : Prop := TransGen step c.1 b.1
    have hwf : WellFounded later := by
      have : IsTrans _ later := ⟨fun _ _ _ hbc hcd ↦ hcd.trans hbc⟩
      have : Std.Irrefl later := ⟨fun b ↦ hacyclic b.1 b.2⟩
      exact Finite.wellFounded_of_trans_of_irrefl later
    have hall (b : {b // ReflTransGen step a b}) : Acc (fun b a ↦ step a b) b.1 := by
      induction b using hwf.induction with
      | _ b ih =>
        exact Acc.intro _ fun c hstep ↦ ih ⟨c, b.2.tail hstep⟩ (TransGen.single hstep)
    exact hall ⟨a, ReflTransGen.refl⟩

end DeclarativeMlir.AcyclicWalks
