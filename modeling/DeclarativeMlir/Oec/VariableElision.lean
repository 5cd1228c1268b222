import DeclarativeMlir.Oec.StencilProgram
import Mathlib.Tactic.SplitIfs

/-!
# Elision of variables in stencil programs

The meaning of the ops of a function is a list of items in which every operand is traced back to
the value that it stands for. The patterns do not change the meaning, keep every reference behind
its op and can only be applied finitely often.
-/

namespace DeclarativeMlir.Oec

open Relation

/-! ## Induction over ops -/

/-- Induction over lists of ops, with a hypothesis for the body of a nested function. -/
@[elab_as_elim]
theorem opsInduction {motive : List Op → Prop} (nil : motive [])
    (name : ∀ ref var ops, motive ops → motive (.name ref var :: ops))
    (assign : ∀ new ref arg ops, motive ops → motive (.assign new ref arg :: ops))
    (load : ∀ res ref ops, motive ops → motive (.load res ref :: ops))
    (other : ∀ res kind operands ops, motive ops → motive (.other res kind operands :: ops))
    (func : ∀ name args body ops, motive body → motive ops → motive (.func name args body :: ops))
    (ops : List Op) : motive ops := by
  match ops with
  | [] => exact nil
  | op :: rest =>
    have ih : motive rest := opsInduction nil name assign load other func rest
    cases op with
    | name ref var => exact name ref var rest ih
    | assign new ref arg => exact assign new ref arg rest ih
    | load res ref => exact load res ref rest ih
    | other res kind operands => exact other res kind operands rest ih
    | func fname args body =>
      exact func fname args body rest (opsInduction nil name assign load other func body) ih
termination_by sizeOf ops

/-! ## Meaning by references -/

/-- An op with all of its operands traced back. Names and assignments are no items. -/
inductive Item where
  /-- a load of a variable that has no value -/
  | load (res : Value) (var : String)
  /-- a load of a reference that there is not -/
  | dangling (res : Value)
  | other (res : Value) (kind : Kind) (operands : List Value)
  | func (name : String) (args : List Value) (body : List Item)

/-- What a handle refers to. -/
inductive Ref where
  | unknown
  | name (var : String)
  | value (val : Value)

/-- What is known by the references in front of an op. -/
structure ByRef where
  refs : Handle → Ref
  /-- what a value is traced back to -/
  value : Value → Value

def ByRef.init : ByRef := ⟨fun _ ↦ .unknown, id⟩

/-- What is known behind an op. -/
def ByRef.step (st : ByRef) : Op → ByRef
  | .name ref var => { st with refs := Function.update st.refs ref (.name var) }
  | .assign new _ arg => { st with refs := Function.update st.refs new (.value (st.value arg)) }
  | .load res ref =>
    match st.refs ref with
    | .value val => { st with value := Function.update st.value res val }
    | _ => st
  | _ => st

mutual

/-- The items of an op by its references. A load of an assignment is none. -/
def ByRef.opItems (st : ByRef) : Op → List Item
  | .load res ref =>
    match st.refs ref with
    | .value _ => []
    | .name var => [.load res var]
    | .unknown => [.dangling res]
  | .other res kind operands => [.other res kind (operands.map st.value)]
  | .func name args body => [.func name args (init.items body)]
  | _ => []

def ByRef.items (st : ByRef) : List Op → List Item
  | [] => []
  | op :: ops => st.opItems op ++ (st.step op).items ops

end

theorem ByRef.items_append (st : ByRef) (before after : List Op) :
    st.items (before ++ after) = st.items before ++ (before.foldl ByRef.step st).items after := by
  induction before generalizing st with
  | nil => rfl
  | cons op before ih =>
    rw [List.cons_append, ByRef.items, ih, ByRef.items, List.foldl_cons, List.append_assoc]

/-- The names behind an op. -/
def stepNames (names : Handle → Option String) : Op → Handle → Option String
  | .name ref var => Function.update names ref (some var)
  | .assign new _ _ => Function.update names new none
  | _ => names

mutual

/-- The items of an op as it stands: a load is of a name, and no operand is traced back. -/
def literalOpItems (names : Handle → Option String) : Op → List Item
  | .load res ref =>
    match names ref with
    | some var => [.load res var]
    | none => [.dangling res]
  | .other res kind operands => [.other res kind operands]
  | .func name args body => [.func name args (literalItems (fun _ ↦ none) body)]
  | _ => []

def literalItems (names : Handle → Option String) : List Op → List Item
  | [] => []
  | op :: ops => literalOpItems names op ++ literalItems (stepNames names op) ops

end

/-! ## References -/

/-- The handles behind an op. -/
def stepHandles (handles : List Handle) : Op → List Handle
  | .name ref _ => ref :: handles
  | .assign new _ _ => new :: handles
  | _ => handles

mutual

/-- The reference of an op is the result of a name or of an assignment in front of it. -/
def Op.HandlesDefined (handles : List Handle) : Op → Prop
  | .assign _ ref _ => ref ∈ handles
  | .load _ ref => ref ∈ handles
  | .func _ _ body => opsHandlesDefined [] body
  | _ => True

def opsHandlesDefined (handles : List Handle) : List Op → Prop
  | [] => True
  | op :: ops => op.HandlesDefined handles ∧ opsHandlesDefined (stepHandles handles op) ops

end

/-- The handles of the assignments behind an op. -/
def stepAssigned (assigned : List Handle) : Op → List Handle
  | .assign new _ _ => new :: assigned
  | _ => assigned

mutual

/-- An op is not a load of an assignment. -/
def Op.Elided (assigned : List Handle) : Op → Prop
  | .load _ ref => ref ∉ assigned
  | .func _ _ body => opsElided [] body
  | _ => True

def opsElided (assigned : List Handle) : List Op → Prop
  | [] => True
  | op :: ops => op.Elided assigned ∧ opsElided (stepAssigned assigned op) ops

end

/-- The next number behind an op. -/
def Op.next (next : ℕ) : Op → ℕ
  | .name ref _ => ref + 1
  | .assign new _ _ => new + 1
  | .load res _ => res + 1
  | .other res _ _ => res + 1
  | .func .. => next

mutual

/-- The number of an op is not used yet, and it uses smaller ones. -/
def Op.Numbered (next : ℕ) : Op → Prop
  | .name ref _ => next ≤ ref
  | .assign new _ arg => next ≤ new ∧ arg < new
  | .load res ref => next ≤ res ∧ ref < res
  | .other res _ _ => next ≤ res
  | .func _ _ body => opsNumbered 0 body

/-- Values and handles have increasing numbers, and an op uses values with smaller ones. -/
def opsNumbered (next : ℕ) : List Op → Prop
  | [] => True
  | op :: ops => op.Numbered next ∧ opsNumbered (op.next next) ops

end

-- The equations are made once, here, and not by all the proofs below at the same time.
attribute [grind =] ByRef.step ByRef.opItems ByRef.items Op.HandlesDefined opsHandlesDefined

attribute [grind =] Op.next Op.Numbered opsNumbered

/-! ## Numbers -/

theorem Op.Numbered.mono {next next' : ℕ} {op : Op} (h : op.Numbered next) (hle : next' ≤ next) :
    op.Numbered next' := by
  cases op with
  | name ref var => exact Nat.le_trans hle h
  | assign new ref arg => exact ⟨Nat.le_trans hle h.1, h.2⟩
  | load res ref => exact ⟨Nat.le_trans hle h.1, h.2⟩
  | other res kind operands => exact Nat.le_trans hle h
  | func name args body => exact h

theorem Op.next_mono (op : Op) {next next' : ℕ} (hle : next' ≤ next) :
    op.next next' ≤ op.next next := by
  cases op with
  | func name args body => exact hle
  | _ => exact Nat.le_refl _

theorem Op.Numbered.le_next {next : ℕ} {op : Op} (h : op.Numbered next) : next ≤ op.next next := by
  cases op with
  | name ref var => exact Nat.le_succ_of_le h
  | assign new ref arg => exact Nat.le_succ_of_le h.1
  | load res ref => exact Nat.le_succ_of_le h.1
  | other res kind operands => exact Nat.le_succ_of_le h
  | func name args body => exact Nat.le_refl _

theorem opsNumbered_mono {next next' : ℕ} {ops : List Op} (h : opsNumbered next ops)
    (hle : next' ≤ next) : opsNumbered next' ops := by
  induction ops generalizing next next' with
  | nil => trivial
  | cons op ops ih => exact ⟨h.1.mono hle, ih h.2 (op.next_mono hle)⟩

theorem opsNumbered_append {next : ℕ} {before after : List Op} :
    opsNumbered next (before ++ after) ↔
      opsNumbered next before ∧ opsNumbered (before.foldl Op.next next) after := by
  induction before generalizing next with
  | nil => simp [opsNumbered]
  | cons op before ih => simp only [List.cons_append, opsNumbered, ih, List.foldl_cons, and_assoc]

/-- An op can be left out. -/
theorem opsNumbered.of_cons {next : ℕ} {op : Op} {ops : List Op} (h : opsNumbered next (op :: ops)) :
    opsNumbered next ops :=
  opsNumbered_mono h.2 h.1.le_next

theorem Op.next_replaceUses (op : Op) (res arg : Value) (next : ℕ) :
    (op.replaceUses res arg).next next = op.next next := by
  cases op <;> rfl

theorem opsNumbered_map_replaceUses {next : ℕ} {ops : List Op} {res arg : Value}
    (h : opsNumbered next ops) (harg : arg ≤ res) :
    opsNumbered next (ops.map (Op.replaceUses res arg)) := by
  induction ops generalizing next with
  | nil => trivial
  | cons op ops ih =>
    have hrest := ih h.2
    rw [← op.next_replaceUses res arg] at hrest
    refine ⟨?_, hrest⟩
    cases op with
    | assign new ref arg' =>
      have harg' : arg' < new := h.1.2
      have hnew : (if arg' = res then arg else arg') < new := by
        split_ifs with heq
        · exact Nat.lt_of_le_of_lt harg (heq ▸ harg')
        · exact harg'
      exact ⟨h.1.1, hnew⟩
    | _ => exact h.1

/-! ## Loads -/

/-- Nothing is learnt about numbers that are in use already. -/
theorem ByRef.step_of_lt (st : ByRef) {op : Op} {next n : ℕ} (hop : op.Numbered next) (hlt : n < next) :
    (st.step op).refs n = st.refs n ∧ (st.step op).value n = st.value n := by
  cases op with
  | name ref var =>
    have hne : n ≠ ref := by have : next ≤ ref := hop; omega
    simp [ByRef.step, Function.update_of_ne hne]
  | assign new ref arg =>
    have hne : n ≠ new := by have := hop.1; omega
    simp [ByRef.step, Function.update_of_ne hne]
  | load res ref =>
    have hne : n ≠ res := by have := hop.1; omega
    cases href : st.refs ref <;> simp [ByRef.step, href, Function.update_of_ne hne]
  | other res kind operands => simp [ByRef.step]
  | func name args body => simp [ByRef.step]

theorem ByRef.foldl_step_of_lt (st : ByRef) {ops : List Op} {next n : ℕ} (hops : opsNumbered next ops)
    (hlt : n < next) :
    (ops.foldl ByRef.step st).refs n = st.refs n ∧ (ops.foldl ByRef.step st).value n = st.value n := by
  induction ops generalizing st next with
  | nil => simp
  | cons op ops ih =>
    have hrest := ih (st.step op) hops.2 (Nat.lt_of_lt_of_le hlt hops.1.le_next)
    have hstep := st.step_of_lt hops.1 hlt
    exact ⟨hrest.1.trans hstep.1, hrest.2.trans hstep.2⟩

/-- The result of an assignment stands for what is assigned, in all of the ops behind it. -/
theorem ByRef.refs_of_assign_mem (st : ByRef) {ops : List Op} {next : ℕ} {new ref : Handle}
    {arg : Value} (hops : opsNumbered next ops) (hmem : .assign new ref arg ∈ ops) :
    arg < new ∧ (ops.foldl ByRef.step st).refs new = .value ((ops.foldl ByRef.step st).value arg) := by
  induction ops generalizing st next with
  | nil => simp at hmem
  | cons op ops ih =>
    rcases List.mem_cons.mp hmem with hop | hmem
    · rw [← hop] at hops ⊢
      have harg : arg < new := hops.1.2
      have hnew := (st.step (.assign new ref arg)).foldl_step_of_lt hops.2 (Nat.lt_succ_self new)
      have hval := (st.step (.assign new ref arg)).foldl_step_of_lt hops.2
        (Nat.lt_succ_of_lt harg)
      rw [List.foldl_cons, hnew.1, hval.2]
      simp [ByRef.step, harg]
    · exact ih (st.step op) hops.2 hmem

/-- Where a result and an argument stand for the same value, the one can replace the other. -/
theorem ByRef.items_map_replaceUses {st st' : ByRef} {ops : List Op} {next : ℕ} {res arg : Value}
    (hops : opsNumbered next ops) (hres : res < next) (harg : arg < res) (hrefs : st'.refs = st.refs)
    (hvalue : ∀ val, st'.value (if val = res then arg else val) = st.value val) :
    st'.items (ops.map (Op.replaceUses res arg)) = st.items ops := by
  induction ops generalizing st st' next with
  | nil => rfl
  | cons op ops ih =>
    have hnext : res < op.next next := Nat.lt_of_lt_of_le hres hops.1.le_next
    rw [List.map_cons, ByRef.items, ByRef.items]
    congr 1
    · cases op with
      | load res' ref => simp only [Op.replaceUses, ByRef.opItems, hrefs]
      | other res' kind operands =>
        simp only [Op.replaceUses, ByRef.opItems, List.map_map]
        congr 2
        exact List.map_congr_left fun val _ ↦ hvalue val
      | _ => rfl
    · cases op with
      | assign new ref arg' =>
        refine ih hops.2 hnext ?_ hvalue
        simp only [Op.replaceUses, ByRef.step, hrefs, hvalue]
      | load res' ref =>
        cases href : st.refs ref with
        | value val =>
          simp only [Op.replaceUses, ByRef.step, hrefs, href]
          refine ih hops.2 hnext rfl fun val' ↦ ?_
          have hlt : res < res' := Nat.lt_of_lt_of_le hres hops.1.1
          have harg' : arg ≠ res' := Nat.ne_of_lt (Nat.lt_trans harg hlt)
          by_cases hval : val' = res
          · have hold : st'.value arg = st.value res := by simpa using hvalue res
            simp [hval, Nat.ne_of_lt hlt, harg', hold]
          · have hold : st'.value val' = st.value val' := by simpa [hval] using hvalue val'
            simp [hval, Function.update_apply, hold]
        | _ =>
          simp only [Op.replaceUses, ByRef.step, hrefs, href]
          exact ih hops.2 hnext hrefs hvalue
      | name ref var =>
        refine ih hops.2 hnext ?_ hvalue
        simp only [Op.replaceUses, ByRef.step, hrefs]
      | _ => exact ih hops.2 hnext hrefs hvalue

/-! ## Assignments -/

theorem useEmpty_iff {handle : Handle} {ops : List Op} :
    useEmpty handle ops = true ↔ ∀ op ∈ ops, op.usesHandle handle = false := by
  simp [useEmpty]

/-- What a handle refers to does not matter for ops that do not use it. -/
theorem ByRef.items_of_useEmpty {st st' : ByRef} {ops : List Op} {new : Handle}
    (huse : ∀ op ∈ ops, op.usesHandle new = false)
    (hrefs : ∀ ref, ref ≠ new → st'.refs ref = st.refs ref) (hvalue : st'.value = st.value) :
    st'.items ops = st.items ops := by
  induction ops generalizing st st' with
  | nil => rfl
  | cons op ops ih =>
    have hrest : ∀ op ∈ ops, op.usesHandle new = false :=
      fun op hop ↦ huse op (List.mem_cons_of_mem _ hop)
    rw [ByRef.items, ByRef.items]
    cases op with
    | name ref var =>
      congr 1
      refine ih hrest (fun ref' hne ↦ ?_) hvalue
      simp only [ByRef.step, Function.update_apply, hrefs ref' hne]
    | assign new' ref arg =>
      congr 1
      refine ih hrest (fun ref' hne ↦ ?_) hvalue
      simp only [ByRef.step, Function.update_apply, hrefs ref' hne, hvalue]
    | load res ref =>
      have hne : ref ≠ new := by simpa [Op.usesHandle] using huse _ List.mem_cons_self
      have href := hrefs ref hne
      cases hst : st.refs ref <;> simp only [ByRef.opItems, ByRef.step, href, hst] <;>
        exact congrArg _ (ih hrest hrefs (by simp [hvalue]))
    | other res kind operands =>
      rw [ByRef.opItems, ByRef.opItems, hvalue]
      exact congrArg _ (ih hrest hrefs hvalue)
    | func name args body => exact congrArg _ (ih hrest hrefs hvalue)

/-! ## Steps of the patterns -/

theorem PatternStep.numbered {ops ops' : List Op} (hstep : PatternStep ops ops') {next : ℕ}
    (hops : opsNumbered next ops) : opsNumbered next ops' := by
  induction hstep generalizing next with
  | elideLoad hmem =>
    rw [opsNumbered_append] at hops ⊢
    have hlt := (ByRef.init.refs_of_assign_mem hops.1 hmem).1
    have hrest := opsNumbered_map_replaceUses hops.2.2
      (Nat.le_of_lt (Nat.lt_trans hlt hops.2.1.2))
    exact ⟨hops.1, opsNumbered_mono hrest hops.2.1.le_next⟩
  | elideAssign _ _ =>
    rw [opsNumbered_append] at hops ⊢
    exact ⟨hops.1, hops.2.of_cons⟩
  | func _ ih =>
    rw [opsNumbered_append] at hops ⊢
    exact ⟨hops.1, ih hops.2.1, hops.2.2⟩

/-- A pattern does not change what the operands stand for. -/
theorem PatternStep.items_eq {ops ops' : List Op} (hstep : PatternStep ops ops') {next : ℕ}
    (hops : opsNumbered next ops) (st : ByRef) : st.items ops' = st.items ops := by
  induction hstep generalizing next st with
  | @elideLoad before after res new ref arg hmem =>
    rw [opsNumbered_append] at hops
    obtain ⟨hlt, href⟩ := st.refs_of_assign_mem hops.1 hmem
    have hres : arg < res := Nat.lt_trans hlt hops.2.1.2
    rw [st.items_append, st.items_append, ByRef.items]
    simp only [ByRef.opItems, ByRef.step, href, List.nil_append]
    refine congrArg _ (ByRef.items_map_replaceUses hops.2.2 (Nat.lt_succ_self res) hres rfl ?_)
    intro val
    simp only [Function.update_apply]
    split_ifs <;> rfl
  | @elideAssign before after new ref arg huse _ =>
    have hafter : ∀ op ∈ after, op.usesHandle new = false :=
      fun op hop ↦ useEmpty_iff.mp huse op (List.mem_append_right _ hop)
    rw [st.items_append, st.items_append, ByRef.items]
    refine congrArg _ (ByRef.items_of_useEmpty hafter (fun ref' hne ↦ ?_) rfl)
    simp only [ByRef.step, Function.update_of_ne hne]
  | @func before after body body' name args _ ih =>
    rw [opsNumbered_append] at hops
    rw [st.items_append, st.items_append, ByRef.items, ByRef.items, ByRef.opItems, ByRef.opItems,
      ih hops.2.1]
    rfl

theorem opsHandlesDefined_append {handles : List Handle} {before after : List Op} :
    opsHandlesDefined handles (before ++ after) ↔
      opsHandlesDefined handles before ∧
        opsHandlesDefined (before.foldl stepHandles handles) after := by
  induction before generalizing handles with
  | nil => simp [opsHandlesDefined]
  | cons op before ih =>
    simp only [List.cons_append, opsHandlesDefined, ih, List.foldl_cons, and_assoc]

theorem opsHandlesDefined_map_replaceUses {handles : List Handle} {ops : List Op} (res arg : Value) :
    opsHandlesDefined handles (ops.map (Op.replaceUses res arg)) ↔
      opsHandlesDefined handles ops := by
  induction ops generalizing handles with
  | nil => rfl
  | cons op ops ih =>
    have hstep : stepHandles handles (op.replaceUses res arg) = stepHandles handles op := by
      cases op <;> rfl
    have hop : (op.replaceUses res arg).HandlesDefined handles ↔ op.HandlesDefined handles := by
      cases op <;> rfl
    simp only [List.map_cons, opsHandlesDefined, hop, hstep, ih]

/-- A handle that is not used does not have to be there. -/
theorem opsHandlesDefined_of_useEmpty {handles handles' : List Handle} {ops : List Op} {new : Handle}
    (h : opsHandlesDefined handles ops) (huse : ∀ op ∈ ops, op.usesHandle new = false)
    (hhandles : ∀ ref ∈ handles, ref ≠ new → ref ∈ handles') : opsHandlesDefined handles' ops := by
  induction ops generalizing handles handles' with
  | nil => trivial
  | cons op ops ih =>
    have hrest : ∀ op ∈ ops, op.usesHandle new = false :=
      fun op hop ↦ huse op (List.mem_cons_of_mem _ hop)
    have hop := huse op List.mem_cons_self
    cases op with
    | name ref var =>
      refine ⟨trivial, ih h.2 hrest fun ref' hmem hne ↦ ?_⟩
      rcases List.mem_cons.mp hmem with href | hmem
      · exact List.mem_cons.mpr (.inl href)
      · exact List.mem_cons_of_mem _ (hhandles ref' hmem hne)
    | assign new' ref arg =>
      have hne : ref ≠ new := by simpa [Op.usesHandle] using hop
      refine ⟨hhandles ref h.1 hne, ih h.2 hrest fun ref' hmem hne ↦ ?_⟩
      rcases List.mem_cons.mp hmem with href | hmem
      · exact List.mem_cons.mpr (.inl href)
      · exact List.mem_cons_of_mem _ (hhandles ref' hmem hne)
    | load res ref =>
      have hne : ref ≠ new := by simpa [Op.usesHandle] using hop
      exact ⟨hhandles ref h.1 hne, ih h.2 hrest hhandles⟩
    | other res kind operands => exact ⟨trivial, ih h.2 hrest hhandles⟩
    | func name args body => exact ⟨h.1, ih h.2 hrest hhandles⟩

/-- A pattern does not remove what is referred to. -/
theorem PatternStep.handlesDefined {ops ops' : List Op} (hstep : PatternStep ops ops')
    {handles : List Handle} (hops : opsHandlesDefined handles ops) :
    opsHandlesDefined handles ops' := by
  induction hstep generalizing handles with
  | elideLoad hmem =>
    rw [opsHandlesDefined_append] at hops ⊢
    exact ⟨hops.1, (opsHandlesDefined_map_replaceUses _ _).mpr hops.2.2⟩
  | @elideAssign before after new ref arg huse _ =>
    have hafter : ∀ op ∈ after, op.usesHandle new = false :=
      fun op hop ↦ useEmpty_iff.mp huse op (List.mem_append_right _ hop)
    rw [opsHandlesDefined_append] at hops ⊢
    refine ⟨hops.1, opsHandlesDefined_of_useEmpty hops.2.2 hafter fun ref' hmem hne ↦ ?_⟩
    exact (List.mem_cons.mp hmem).resolve_left hne
  | func _ ih =>
    rw [opsHandlesDefined_append] at hops ⊢
    exact ⟨hops.1, ih hops.2.1, hops.2.2⟩

mutual

/-- The number of ops of an op, itself included. -/
def Op.count : Op → ℕ
  | .func _ _ body => opsCount body + 1
  | _ => 1

def opsCount : List Op → ℕ
  | [] => 0
  | op :: ops => op.count + opsCount ops

end

theorem opsCount_append (before after : List Op) :
    opsCount (before ++ after) = opsCount before + opsCount after := by
  induction before with
  | nil => simp [opsCount]
  | cons op before ih => rw [List.cons_append, opsCount, opsCount, ih, Nat.add_assoc]

theorem opsCount_map_replaceUses (ops : List Op) (res arg : Value) :
    opsCount (ops.map (Op.replaceUses res arg)) = opsCount ops := by
  induction ops with
  | nil => rfl
  | cons op ops ih =>
    have hop : (op.replaceUses res arg).count = op.count := by
      cases op <;> rfl
    rw [List.map_cons, opsCount, opsCount, hop, ih]

theorem PatternStep.opsCount_lt {ops ops' : List Op} (hstep : PatternStep ops ops') :
    opsCount ops' < opsCount ops := by
  induction hstep with
  | elideLoad _ =>
    simp only [opsCount_append, opsCount_map_replaceUses, opsCount, Op.count]
    omega
  | elideAssign _ _ =>
    simp only [opsCount_append, opsCount, Op.count]
    omega
  | func _ ih =>
    simp only [opsCount_append, opsCount, Op.count]
    omega

/-- The patterns can only be applied finitely often. -/
theorem patternStep_acc (ops : List Op) : Acc (fun next ops ↦ PatternStep ops next) ops :=
  (Subrelation.wf PatternStep.opsCount_lt (measure opsCount).wf).apply ops

/-! ## Ops without loads of assignments -/

/-- Every handle is the result of an assignment among the ops. -/
def AllAssigned (assigned : List Handle) (ops : List Op) : Prop :=
  ∀ new ∈ assigned, ∃ ref arg, .assign new ref arg ∈ ops

theorem AllAssigned.nil : AllAssigned [] [] := by
  simp [AllAssigned]

theorem AllAssigned.append {assigned : List Handle} {ops : List Op} (h : AllAssigned assigned ops)
    (op : Op) : AllAssigned assigned (ops ++ [op]) := by
  intro new hmem
  obtain ⟨ref, arg, hassign⟩ := h new hmem
  exact ⟨ref, arg, List.mem_append_left _ hassign⟩

theorem AllAssigned.append_assign {assigned : List Handle} {ops : List Op}
    (h : AllAssigned assigned ops) (new ref : Handle) (arg : Value) :
    AllAssigned (new :: assigned) (ops ++ [.assign new ref arg]) := by
  intro new' hmem
  rcases List.mem_cons.mp hmem with hnew | hmem
  · exact ⟨ref, arg, by simp [hnew]⟩
  · exact h.append _ new' hmem

/-- A load of an assignment can be elided. -/
theorem exists_patternStep {assigned : List Handle} {before ops : List Op}
    (hbefore : AllAssigned assigned before) (helided : ¬ opsElided assigned ops) :
    ∃ next, PatternStep (before ++ ops) next := by
  induction ops using opsInduction generalizing assigned before with
  | nil => exact absurd trivial helided
  | name ref var ops ih =>
    simpa using ih (hbefore.append (.name ref var)) fun h ↦ helided ⟨trivial, h⟩
  | assign new ref arg ops ih =>
    simpa using ih (hbefore.append_assign new ref arg) fun h ↦ helided ⟨trivial, h⟩
  | load res ref ops ih =>
    by_cases hmem : ref ∈ assigned
    · obtain ⟨ref', arg, hassign⟩ := hbefore ref hmem
      exact ⟨_, .elideLoad hassign⟩
    · simpa using ih (hbefore.append (.load res ref)) fun h ↦ helided ⟨hmem, h⟩
  | other res kind operands ops ih =>
    simpa using ih (hbefore.append (.other res kind operands)) fun h ↦ helided ⟨trivial, h⟩
  | func name args body ops ihBody ih =>
    by_cases hbody : opsElided [] body
    · simpa using ih (hbefore.append (.func name args body)) fun h ↦ helided ⟨hbody, h⟩
    · obtain ⟨body', hbody'⟩ := ihBody AllAssigned.nil hbody
      exact ⟨_, .func hbody'⟩

/-- The variable of a reference to a name -/
def Ref.name? : Ref → Option String
  | .name var => some var
  | _ => none

/-- Without loads of assignments, the operands are the values they stand for. -/
theorem literalItems_eq {st : ByRef} {names : Handle → Option String} {assigned : List Handle}
    {ops : List Op} (helided : opsElided assigned ops) (hvalue : st.value = id)
    (hnames : ∀ ref, names ref = (st.refs ref).name?)
    (hassigned : ∀ ref val, st.refs ref = .value val → ref ∈ assigned) :
    literalItems names ops = st.items ops := by
  induction ops using opsInduction generalizing st names assigned with
  | nil => rfl
  | name ref var ops ih =>
    refine ih helided.2 hvalue (fun ref' ↦ ?_) fun ref' val hval ↦ ?_
    · simp only [stepNames, ByRef.step, Function.update_apply]
      split_ifs <;> simp [Ref.name?, hnames]
    · simp only [ByRef.step, Function.update_apply] at hval
      split_ifs at hval
      exact hassigned ref' val hval
  | assign new ref arg ops ih =>
    refine ih helided.2 hvalue (fun ref' ↦ ?_) fun ref' val hval ↦ ?_
    · simp only [stepNames, ByRef.step, Function.update_apply]
      split_ifs <;> simp [Ref.name?, hnames]
    · simp only [ByRef.step, Function.update_apply] at hval
      split_ifs at hval with hnew
      · exact List.mem_cons.mpr (.inl hnew)
      · exact List.mem_cons_of_mem _ (hassigned ref' val hval)
  | load res ref ops ih =>
    have hrest := ih helided.2 hvalue hnames hassigned
    cases href : st.refs ref with
    | value val => exact absurd (hassigned ref val href) helided.1
    | _ =>
      simp only [literalItems, literalOpItems, ByRef.items, ByRef.opItems, ByRef.step, href,
        hnames ref, Ref.name?]
      exact congrArg _ hrest
  | other res kind operands ops ih =>
    have hrest := ih helided.2 hvalue hnames hassigned
    simp only [literalItems, literalOpItems, ByRef.items, ByRef.opItems, hvalue, List.map_id]
    exact congrArg _ hrest
  | func name args body ops ihBody ih =>
    have hrest := ih helided.2 hvalue hnames hassigned
    have hbody : literalItems (fun _ ↦ none) body = ByRef.init.items body :=
      ihBody helided.1 rfl (fun _ ↦ rfl) (by simp [ByRef.init])
    simp only [literalItems, literalOpItems, ByRef.items, ByRef.opItems, hbody]
    exact congrArg _ hrest

end DeclarativeMlir.Oec
