import DeclarativeMlir.Lua.ControlFlow
import DeclarativeMlir.Library.EventMachine
import Mathlib.Data.Set.Basic

/-!
# Runs of structured code and of block graphs

A run is observed through the straight-line ops it executes, the conditions it evaluates and its
return, each with the values of its operands. Ops are observed under their source identities,
with their attributes and regions. The meaning of straight-line ops is a parameter.
-/

namespace DeclarativeMlir.Lua

variable {V S : Type}

/-- Names of ops that neither branch nor decide a branch. -/
def OpName.IsStraight (name : OpName) : Prop :=
  name ∉ [.numeric_for, .generic_for, .loop_while, .repeat, .cond_if, .until, .end, .ret, .cond,
    .convert_bool_like, .br, .cond_br]

instance (name : OpName) : Decidable name.IsStraight :=
  inferInstanceAs (Decidable (name ∉ _))

theorem OpName.IsStraight.not_isControl {name : OpName} (hname : name.IsStraight) :
    ¬ name.IsControl := by
  simp only [IsStraight, IsControl, List.mem_cons, not_or] at hname ⊢
  tauto

/-- The meaning of straight-line ops and of conditions. -/
structure Interp (V S : Type) where
  /-- the results and the effect of an op on operand values -/
  exec : Op ℕ → List V → S → (ℕ → V) × S
  truthy : V → Bool
  ofBool : Bool → V
  truthy_ofBool : ∀ b, truthy (ofBool b) = b

inductive Event (V : Type) where
  | exec (op : Op ℕ) (operands : List V)
  | cond (value : V)
  | ret (op : Op ℕ) (operands : List V)

/-- The values after an op `id` with results `results`. -/
def setResults {ι : Type} [DecidableEq ι] (id : ι) (results : ℕ → V) (env : Value ι → V) :
    Value ι → V
  | .res op idx => if op = id then results idx else env (.res op idx)
  | .arg block idx => env (.arg block idx)

/-! ## Structured code -/

namespace Structured

/-- What follows a block that is being executed. -/
inductive Frame where
  | branch (rest : List (Op ℕ))
  | loop (eval region : Region ℕ) (rest : List (Op ℕ))

structure Config (V S : Type) where
  code : List (Op ℕ)
  frames : List Frame
  env : Value ℕ → V
  store : S

variable (interp : Interp V S)

/-- One step of code with nested `lua.cond_if` and `lua.loop_while` ops. -/
def step : EventMachine.Step (Config V S) (Event V)
  | ⟨[], _, _, _⟩ => none
  | ⟨op :: rest, frames, env, store⟩ =>
    let operands := op.operands.map env
    if op.name.IsStraight then
      let (results, store') := interp.exec op operands store
      some ([.exec op operands], ⟨rest, frames, setResults op.id results env, store'⟩)
    else match op.name, op.regions, operands, frames with
      | .cond_if, [first, second], [cond], frames =>
        some ([.cond cond],
          ⟨getBlock0 (if interp.truthy cond then first else second), .branch rest :: frames, env,
            store⟩)
      | .loop_while, [eval, region], _, frames =>
        some ([], ⟨getBlock0 eval, .loop eval region rest :: frames, env, store⟩)
      | .cond, _, [cond], .loop eval region after :: frames =>
        some ([.cond cond],
          if interp.truthy cond then
            ⟨getBlock0 region, .loop eval region after :: frames, env, store⟩
          else ⟨after, frames, env, store⟩)
      | .end, _, _, .branch after :: frames => some ([], ⟨after, frames, env, store⟩)
      | .end, _, _, .loop eval region after :: frames =>
        some ([], ⟨getBlock0 eval, .loop eval region after :: frames, env, store⟩)
      | .ret, _, operands, _ => some ([.ret op operands], ⟨[], [], env, store⟩)
      | _, _, _, _ => none

end Structured

/-! ## Block graphs -/

/-- The source op an op was cloned from or created for. -/
def OpId.origin : OpId → ℕ
  | .src n => n
  | .clone op => op.origin
  | .new op _ => op.origin

namespace Cfg

structure Config (V S : Type) where
  code : List (Op OpId)
  env : Value OpId → V
  store : S

def blockOps (region : Region OpId) (label : BlockId OpId) : Option (List (Op OpId)) :=
  (region.find? fun block ↦ block.id == label).map Blk.ops

variable (interp : Interp V S) (region : Region OpId)

def goto (label : BlockId OpId) (env : Value OpId → V) (store : S) :
    Option (List (Event V) × Config V S) :=
  (blockOps region label).map fun code ↦ ([], ⟨code, env, store⟩)

/-- One step in a graph of blocks. -/
def step : EventMachine.Step (Config V S) (Event V)
  | ⟨[], _, _⟩ => none
  | ⟨op :: rest, env, store⟩ =>
    let operands := op.operands.map env
    if op.name.IsStraight then
      let (results, store') := interp.exec (op.map OpId.origin) operands store
      some ([.exec (op.map OpId.origin) operands],
        ⟨rest, setResults op.id results env, store'⟩)
    else match op.name, operands, op.successors with
      | .convert_bool_like, [cond], _ =>
        some ([.cond cond],
          ⟨rest, setResults op.id (fun _ ↦ interp.ofBool (interp.truthy cond)) env, store⟩)
      | .br, _, [dest] => goto region dest env store
      | .cond_br, [cond], [trueDest, falseDest] =>
        goto region (if interp.truthy cond then trueDest else falseDest) env store
      | .ret, operands, _ => some ([.ret (op.map OpId.origin) operands], ⟨[], env, store⟩)
      | _, _, _ => none

end Cfg

/-! ## Well-formed structured code -/

/-- Structured code with a terminator from `terms`, whose operands are among the values
`visible` at that point and which defines no visible value again. -/
inductive StructuredCode : List OpName → Set (Value ℕ) → List (Op ℕ) → Prop where
  | endTerm {terms visible} (id attr) (hmem : .end ∈ terms)
      (hfresh : ∀ value ∈ visible, value.owner ≠ id) :
      StructuredCode terms visible [.mk id .end attr [] 0 [] []]
  | retTerm {terms visible} (id attr) (operands : List (Value ℕ)) (hmem : .ret ∈ terms)
      (hoperands : ∀ value ∈ operands, value ∈ visible)
      (hfresh : ∀ value ∈ visible, value.owner ≠ id) :
      StructuredCode terms visible [.mk id .ret attr operands 0 [] []]
  | condTerm {terms visible} (id attr cond) (hmem : .cond ∈ terms) (hcond : cond ∈ visible)
      (hfresh : ∀ value ∈ visible, value.owner ≠ id) :
      StructuredCode terms visible [.mk id .cond attr [cond] 0 [] []]
  | straight {terms visible op rest} (hname : op.name.IsStraight)
      (hoperands : ∀ value ∈ op.operands, value ∈ visible)
      (hfresh : ∀ value ∈ visible, value.owner ∉ op.defs)
      (hrest : StructuredCode terms ({value | value ∈ op.results} ∪ visible) rest) :
      StructuredCode terms visible (op :: rest)
  | condIf {terms visible first second rest} (id attr cond) (hcond : cond ∈ visible)
      (hfresh : ∀ value ∈ visible, value.owner ≠ id)
      (hfirst : StructuredCode [.end, .ret] visible first)
      (hsecond : StructuredCode [.end, .ret] visible second)
      (hrest : StructuredCode terms visible rest) :
      StructuredCode terms visible
        (.mk id .cond_if attr [cond] 0 []
          [[.mk (.entry id 0) 0 first], [.mk (.entry id 1) 0 second]] :: rest)
  | loopWhile {terms visible eval body rest} (id attr)
      (hfresh : ∀ value ∈ visible, value.owner ≠ id)
      (heval : StructuredCode [.cond] visible eval)
      (hbody : StructuredCode [.end] visible body)
      (hrest : StructuredCode terms visible rest) :
      StructuredCode terms visible
        (.mk id .loop_while attr [] 0 []
          [[.mk (.entry id 0) 0 eval], [.mk (.entry id 1) 0 body]] :: rest)

theorem StructuredCode.ne_nil {terms : List OpName} {visible : Set (Value ℕ)}
    {code : List (Op ℕ)} (hcode : StructuredCode terms visible code) : code ≠ [] := by
  cases hcode <;> simp

/-- Structured code does not define a visible value again, at any depth. -/
theorem StructuredCode.fresh {terms : List OpName} {visible : Set (Value ℕ)}
    {code : List (Op ℕ)} (hcode : StructuredCode terms visible code) :
    ∀ value ∈ visible, value.owner ∉ defsOps code := by
  induction hcode with
  | endTerm id attr hmem hfresh =>
    intro value hvalue
    simpa [defsOps, Op.defs, defsRegions] using hfresh value hvalue
  | retTerm id attr operands hmem hoperands hfresh =>
    intro value hvalue
    simpa [defsOps, Op.defs, defsRegions] using hfresh value hvalue
  | condTerm id attr cond hmem hcond hfresh =>
    intro value hvalue
    simpa [defsOps, Op.defs, defsRegions] using hfresh value hvalue
  | straight hname hoperands hfresh hrest ih =>
    intro value hvalue
    simp only [defsOps, List.mem_append, not_or]
    exact ⟨hfresh value hvalue, ih value (Or.inr hvalue)⟩
  | condIf id attr cond hcond hfresh hfirst hsecond hrest ihfirst ihsecond ihrest =>
    intro value hvalue
    simp only [defsOps, Op.defs, defsRegions, defsBlocks, Blk.defs, List.mem_append,
      List.mem_cons, not_or, List.append_nil]
    exact ⟨⟨hfresh value hvalue, ihfirst value hvalue, ihsecond value hvalue⟩,
      ihrest value hvalue⟩
  | loopWhile id attr hfresh heval hbody hrest iheval ihbody ihrest =>
    intro value hvalue
    simp only [defsOps, Op.defs, defsRegions, defsBlocks, Blk.defs, List.mem_append,
      List.mem_cons, not_or, List.append_nil]
    exact ⟨⟨hfresh value hvalue, iheval value hvalue, ihbody value hvalue⟩,
      ihrest value hvalue⟩

end DeclarativeMlir.Lua
