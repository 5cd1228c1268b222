import DeclarativeMlir.Oec.VariableElision

/-!
# Resolution of variables in stencil programs

By the names of variables, a load stands for the value of the latest assignment in program order.
The visitor of variables and the patterns give every operand this value as long as no variable of a
function is assigned twice. With a second assignment the visitor fails: the name that is assigned to
has become the result of the first assignment then.
-/

namespace DeclarativeMlir.Oec

open Relation

/-! ## Meaning by names -/

/-- What is known by the names in front of an op. -/
structure ByName where
  /-- the value of the latest assignment of a variable -/
  vars : String → Option Value
  names : Handle → Option String
  /-- what a value is traced back to -/
  value : Value → Value

def ByName.init : ByName := ⟨fun _ ↦ none, fun _ ↦ none, id⟩

/-- The value of the variable of a reference -/
def ByName.lookup (st : ByName) (ref : Handle) : Option Value := st.names ref >>= st.vars

/-- What is known behind an op. -/
def ByName.step (st : ByName) : Op → ByName
  | .name ref var => { st with names := Function.update st.names ref (some var) }
  | .assign _ ref arg =>
    match st.names ref with
    | some var => { st with vars := Function.update st.vars var (some (st.value arg)) }
    | none => st
  | .load res ref =>
    match st.lookup ref with
    | some val => { st with value := Function.update st.value res val }
    | none => st
  | _ => st

mutual

/-- The items of an op by the names of variables. A load of an assigned variable is none. -/
def ByName.opItems (st : ByName) : Op → List Item
  | .load res ref =>
    match st.lookup ref, st.names ref with
    | some _, _ => []
    | none, some var => [.load res var]
    | none, none => [.dangling res]
  | .other res kind operands => [.other res kind (operands.map st.value)]
  | .func name args body => [.func name args (init.items body)]
  | _ => []

def ByName.items (st : ByName) : List Op → List Item
  | [] => []
  | op :: ops => st.opItems op ++ (st.step op).items ops

end

-- The equations are made once, here, and not by all the proofs below at the same time.
attribute [grind =] ByName.opItems ByName.items

attribute [grind =] VarAllocVisitor.visitOp VarAllocVisitor.visitOps

/-! ## The property -/

/-- The visitor does not fail, and whatever patterns are applied to its ops, every operand stands
for the value that the latest assignments give, a load without an assignment has its name, and no
reference is without its op. Without loads of assignments, which can be elided, the operands are
these values. The patterns can only be applied finitely often. -/
structure ResolvesVariables (ops : List Op) : Prop where
  defined : ∃ ops', VarAllocVisitor.init.visitOps ops = some ops'
  items_eq : ∀ ops' ops'', VarAllocVisitor.init.visitOps ops = some ops' →
    ReflTransGen PatternStep ops' ops'' → ByRef.init.items ops'' = ByName.init.items ops
  handlesDefined : ∀ ops' ops'', VarAllocVisitor.init.visitOps ops = some ops' →
    ReflTransGen PatternStep ops' ops'' → opsHandlesDefined [] ops''
  literalItems_eq : ∀ ops' ops'', VarAllocVisitor.init.visitOps ops = some ops' →
    ReflTransGen PatternStep ops' ops'' → opsElided [] ops'' →
    literalItems (fun _ ↦ none) ops'' = ByName.init.items ops
  progress : ∀ ops' ops'', VarAllocVisitor.init.visitOps ops = some ops' →
    ReflTransGen PatternStep ops' ops'' → ¬ opsElided [] ops'' → ∃ next, PatternStep ops'' next
  terminates : ∀ ops', VarAllocVisitor.init.visitOps ops = some ops' →
    Acc (fun next ops ↦ PatternStep ops next) ops'

/-- The variables that the statements of a function assign to, in order -/
def targets : List Stmt → List String
  | [] => []
  | .assign target _ :: stmts => target :: targets stmts
  | _ :: stmts => targets stmts

mutual

/-- In a nested function, every variable is assigned once. -/
def Stmt.SingleAssignment : Stmt → Prop
  | .functionDef _ params body => (params ++ targets body).Nodup ∧ stmtsSingleAssignment body
  | _ => True

def stmtsSingleAssignment : List Stmt → Prop
  | [] => True
  | stmt :: stmts => stmt.SingleAssignment ∧ stmtsSingleAssignment stmts

end

/-- Every variable of a function is assigned once, where a parameter counts as assigned, and the
same holds of all nested functions. -/
def SingleAssignment (params : List String) (body : List Stmt) : Prop :=
  (params ++ targets body).Nodup ∧ stmtsSingleAssignment body

/-! ## Code of the visitor -/

/-- The ops of a function from some op on: the next number, the reference of an assignment whose
value is computed, the variables that are assigned, and whether nested functions are in single
assignment form. -/
inductive Code : ℕ → Option (Handle × String) → List String → Prop → List Op → Prop where
  | nil {next : ℕ} {nested : Prop} : nested → Code next none [] nested []
  | load {next : ℕ} {pending : Option (Handle × String)} {vars : List String} {nested : Prop}
      {ops : List Op} {ref res : ℕ} {var : String} :
      next ≤ ref → ref < res → Code (res + 1) pending vars nested ops →
      Code next pending vars nested (.name ref var :: .load res ref :: ops)
  | other {next : ℕ} {pending : Option (Handle × String)} {vars : List String} {nested : Prop}
      {ops : List Op} {res : ℕ} {kind : Kind} {operands : List Value} :
      next ≤ res → Code (res + 1) pending vars nested ops →
      Code next pending vars nested (.other res kind operands :: ops)
  | name {next : ℕ} {vars : List String} {nested : Prop} {ops : List Op} {ref : ℕ}
      {var : String} :
      next ≤ ref → Code (ref + 1) (some (ref, var)) vars nested ops →
      Code next none vars nested (.name ref var :: ops)
  | assign {next : ℕ} {vars : List String} {nested : Prop} {ops : List Op} {new arg : ℕ}
      {ref : Handle} {var : String} :
      next ≤ new → arg < new → Code (new + 1) none vars nested ops →
      Code next (some (ref, var)) (var :: vars) nested (.assign new ref arg :: ops)
  | func {next : ℕ} {vars vars' : List String} {nested nested' : Prop} {ops body : List Op}
      {name : String} {args : List Value} :
      Code 0 none vars' nested' body → Code next none vars nested ops →
      Code next none vars ((vars'.Nodup ∧ nested') ∧ nested) (.func name args body :: ops)

/-- The ops can stand in front of all code. -/
def Emitted.Fits (next : ℕ) (emitted : Emitted) : Prop :=
  ∀ (pending : Option (Handle × String)) (vars : List String) (nested : Prop) (ops : List Op),
    Code emitted.next pending vars nested ops → Code next pending vars nested (emitted.ops ++ ops)

theorem Emitted.Fits.andThen {next : ℕ} {emitted : Emitted} (h : emitted.Fits next) (kind : Kind) :
    (emitted.andThen kind).Fits next := by
  intro pending vars nested ops hops
  have hother := h pending vars nested (.other emitted.next kind emitted.values :: ops)
    (.other (Nat.le_refl _) hops)
  simpa [Emitted.andThen] using hother

theorem Emitted.Fits.append {next : ℕ} {first rest : Emitted} (hfirst : first.Fits next)
    (hrest : rest.Fits first.next) (values : List Value) :
    Emitted.Fits next ⟨first.ops ++ rest.ops, values, rest.next⟩ := by
  intro pending vars nested ops hops
  simpa using hfirst pending vars nested _ (hrest pending vars nested ops hops)

theorem Emitted.fits_nil (next : ℕ) : Emitted.Fits next ⟨[], [], next⟩ :=
  fun _ _ _ _ hops ↦ hops

mutual

theorem Expr.visit_fits (expr : Expr) (next : ℕ) : (expr.visit next).Fits next := by
  cases expr with
  | name id => exact fun _ _ _ _ hops ↦ .load (Nat.le_refl _) (Nat.lt_succ_self _) hops
  | constant value => exact (Emitted.fits_nil next).andThen _
  | call func args =>
    exact ((func.visit_fits next).append (visitExprs_fits args _) _).andThen _
  | getAttr value attr => exact (value.visit_fits next).andThen _
  | subscript value slice =>
    exact ((value.visit_fits next).append (slice.visit_fits _) _).andThen _
  | tuple elts => exact (visitExprs_fits elts next).andThen _
  | list elts => exact (visitExprs_fits elts next).andThen _
  | unaryOp operand => exact (operand.visit_fits next).andThen _
  | binOp op left right =>
    exact ((left.visit_fits next).append (right.visit_fits _) _).andThen _

theorem visitExprs_fits (exprs : List Expr) (next : ℕ) : (visitExprs next exprs).Fits next := by
  cases exprs with
  | nil => exact Emitted.fits_nil next
  | cons expr exprs => exact (expr.visit_fits next).append (visitExprs_fits exprs _) _

end

/-- The value of an expression has a smaller number than what is behind it. -/
theorem Expr.headD_values_lt (expr : Expr) (next : ℕ) :
    (expr.visit next).values.headD 0 < (expr.visit next).next := by
  cases expr <;> simp [Expr.visit, Emitted.andThen]

theorem code_visitParams {arg next : ℕ} {params vars : List String} {nested : Prop} {ops : List Op}
    (hargs : arg + params.length ≤ next)
    (hops : Code (next + 2 * params.length) none vars nested ops) :
    Code next none (params ++ vars) nested (visitParams arg next params ++ ops) := by
  induction params generalizing arg next with
  | nil => exact hops
  | cons param params ih =>
    rw [List.length_cons] at hargs hops
    have hargs' : arg + 1 + params.length ≤ next + 2 := by omega
    have hnext : next + 2 * (params.length + 1) = next + 2 + 2 * params.length := by omega
    have hrest := ih hargs' (hnext ▸ hops)
    exact .name (Nat.le_refl _) (.assign (Nat.le_refl _) (by omega) hrest)

theorem Code.mono {next next' : ℕ} {pending : Option (Handle × String)} {vars : List String}
    {nested : Prop} {ops : List Op} (h : Code next pending vars nested ops) (hle : next' ≤ next) :
    Code next' pending vars nested ops := by
  induction h with
  | nil hnested => exact .nil hnested
  | load href hres hops _ => exact .load (Nat.le_trans hle href) hres hops
  | other hres hops _ => exact .other (Nat.le_trans hle hres) hops
  | name href hops _ => exact .name (Nat.le_trans hle href) hops
  | assign hnew harg hops _ => exact .assign (Nat.le_trans hle hnew) harg hops
  | func hbody _ _ ih => exact .func hbody (ih hle)

theorem Code.congr {next : ℕ} {pending : Option (Handle × String)} {vars : List String}
    {nested nested' : Prop} {ops : List Op} (h : Code next pending vars nested ops)
    (hnested : nested ↔ nested') : Code next pending vars nested' ops :=
  propext hnested ▸ h

theorem Code.true_and {next : ℕ} {vars : List String} {nested : Prop} {ops : List Op}
    (h : Code next none vars nested ops) : Code next none vars (True ∧ nested) ops :=
  h.congr ⟨fun hnested ↦ ⟨trivial, hnested⟩, fun hnested ↦ hnested.2⟩

/-- The assignments of the parameters in front of the code of a body. -/
theorem Code.visitParams {params vars : List String} {nested : Prop} {ops : List Op}
    (h : Code (3 * params.length) none vars nested ops) :
    Code 0 none (params ++ vars) nested (visitParams 0 params.length params ++ ops) := by
  have hargs : 0 + params.length ≤ params.length := by omega
  have hnext : 3 * params.length = params.length + 2 * params.length := by omega
  exact (code_visitParams hargs (hnext ▸ h)).mono (Nat.zero_le _)

mutual

/-- The ops of a statement in front of others, with the variable that it assigns to. -/
theorem Stmt.code_visit (stmt : Stmt) {next : ℕ} {vars : List String} {nested : Prop} {ops : List Op}
    (hops : Code (stmt.visit next).2 none vars nested ops) :
    Code next none (targets [stmt] ++ vars) (stmt.SingleAssignment ∧ nested)
      ((stmt.visit next).1 ++ ops) := by
  cases stmt with
  | assign target value =>
    have hassign : Code (value.visit (next + 1)).next (some (next, target)) (target :: vars) nested
        (.assign (value.visit (next + 1)).next next ((value.visit (next + 1)).values.headD 0) ::
          ops) :=
      .assign (Nat.le_refl _) (value.headD_values_lt (next + 1)) hops
    have hname := Code.name (Nat.le_refl next) (value.visit_fits (next + 1) _ _ _ _ hassign)
    refine Code.true_and ?_
    simpa [Stmt.visit, targets] using hname
  | expr value => exact (value.visit_fits next _ _ _ _ hops).true_and
  | ret value =>
    cases value with
    | none => exact (Code.other (Nat.le_refl next) hops).true_and
    | some value => exact (((value.visit_fits next).andThen .ret) _ _ _ _ hops).true_and
  | functionDef name params body =>
    exact .func (code_visitStmts body (3 * params.length)).visitParams hops

theorem code_visitStmts (stmts : List Stmt) (next : ℕ) :
    Code next none (targets stmts) (stmtsSingleAssignment stmts) (visitStmts next stmts) := by
  cases stmts with
  | nil => exact .nil trivial
  | cons stmt stmts =>
    have h := stmt.code_visit (code_visitStmts stmts (stmt.visit next).2)
    cases stmt <;> exact h

end

theorem code_visitFunction (params : List String) (body : List Stmt) :
    Code 0 none (params ++ targets body) (stmtsSingleAssignment body)
      (visitFunction params body) :=
  (code_visitStmts body (3 * params.length)).visitParams

/-! ## The visitor of variables -/

/-- The visitor in front of an op, with what is known there by names, and by the references that it
has put in place. -/
structure Sync where
  visitor : VarAllocVisitor
  byName : ByName
  byRef : ByRef
  handles : List Handle

def Sync.init : Sync := ⟨.init, .init, .init, []⟩

/-- The variables of the visitor are the assigned ones, and the results of their assignments stand
for their values. -/
structure Sync.Agrees (s : Sync) (next : ℕ) : Prop where
  value_eq : s.byRef.value = s.byName.value
  unassigned : ∀ var, s.visitor.vars var = none → s.byName.vars var = none
  assigned : ∀ var new, s.visitor.vars var = some new →
    new < next ∧ new ∈ s.handles ∧ s.visitor.names new = none ∧
      ∃ val, s.byName.vars var = some val ∧ s.byRef.refs new = .value val
  replaced_eq : ∀ ref, next ≤ ref → s.visitor.replaced ref = ref
  names_eq : ∀ ref, next ≤ ref → s.visitor.names ref = none

/-- The reference of an assignment whose value is computed is a name, unless its variable has been
assigned before. -/
def Sync.Pending (s : Sync) (next : ℕ) : Option (Handle × String) → Prop
  | none => True
  | some (ref, var) =>
    ref < next ∧ s.byName.names ref = some var ∧ s.visitor.replaced ref < next ∧
      s.visitor.replaced ref ∈ s.handles ∧
      s.visitor.names (s.visitor.replaced ref) =
        (s.visitor.vars var).elim (some var) fun _ ↦ none

/-- The visitor succeeds, and its ops have the meaning that the names give. -/
def Sync.Visited (s : Sync) (next : ℕ) (ops : List Op) : Prop :=
  ∃ ops', s.visitor.visitOps ops = some ops' ∧ s.byRef.items ops' = s.byName.items ops ∧
    opsNumbered next ops' ∧ opsHandlesDefined s.handles ops'

/-- The visitor succeeds under a condition, and only then. -/
structure Sync.Outcome (s : Sync) (next : ℕ) (good : Prop) (ops : List Op) : Prop where
  visited : good → s.Visited next ops
  fails : ¬ good → s.visitor.visitOps ops = none

theorem Sync.init_agrees (next : ℕ) : Sync.init.Agrees next where
  value_eq := rfl
  unassigned _ _ := rfl
  assigned var new hvar := by simp [Sync.init, VarAllocVisitor.init] at hvar
  replaced_eq _ _ := rfl
  names_eq _ _ := rfl

theorem Sync.Agrees.mono {s : Sync} {next next' : ℕ} (h : s.Agrees next) (hle : next ≤ next') :
    s.Agrees next' where
  value_eq := h.value_eq
  unassigned := h.unassigned
  assigned var new hvar := by
    obtain ⟨hlt, hrest⟩ := h.assigned var new hvar
    exact ⟨Nat.lt_of_lt_of_le hlt hle, hrest⟩
  replaced_eq ref href := h.replaced_eq ref (Nat.le_trans hle href)
  names_eq ref href := h.names_eq ref (Nat.le_trans hle href)

theorem Sync.Pending.mono {s : Sync} {next next' : ℕ} {pending : Option (Handle × String)}
    (h : s.Pending next pending) (hle : next ≤ next') : s.Pending next' pending := by
  cases pending with
  | none => trivial
  | some pending =>
    obtain ⟨href, hname, hreplaced, hrest⟩ := h
    exact ⟨Nat.lt_of_lt_of_le href hle, hname, Nat.lt_of_lt_of_le hreplaced hle, hrest⟩

/-- An op is kept, with the value of its reference replaced. -/
theorem Sync.Outcome.keep {s : Sync} {next : ℕ} {good : Prop} {op op' : Op} {ops : List Op}
    {visitor : VarAllocVisitor} (hop : s.visitor.visitOp op = some (visitor, some op'))
    (hitems : s.byRef.opItems op' = s.byName.opItems op) (hnumbered : op'.Numbered next)
    (hhandles : op'.HandlesDefined s.handles)
    (h : Sync.Outcome ⟨visitor, s.byName.step op, s.byRef.step op', stepHandles s.handles op'⟩
      (op'.next next) good ops) :
    s.Outcome next good (op :: ops) where
  visited hgood := by
    obtain ⟨ops', hops, hrest, hnumbered', hhandles'⟩ := h.visited hgood
    refine ⟨op' :: ops', ?_, ?_, ⟨hnumbered, hnumbered'⟩, ⟨hhandles, hhandles'⟩⟩
    · simp [VarAllocVisitor.visitOps, hop, hops]
    · rw [ByRef.items, ByName.items, hitems, hrest]
  fails hgood := by
    simp [VarAllocVisitor.visitOps, hop, h.fails hgood]

/-- An op is replaced by the result of an assignment. -/
theorem Sync.Outcome.drop {s : Sync} {next : ℕ} {good : Prop} {op : Op} {ops : List Op}
    {visitor : VarAllocVisitor} (hop : s.visitor.visitOp op = some (visitor, none))
    (hitems : s.byName.opItems op = [])
    (h : Sync.Outcome ⟨visitor, s.byName.step op, s.byRef, s.handles⟩ next good ops) :
    s.Outcome next good (op :: ops) where
  visited hgood := by
    obtain ⟨ops', hops, hrest, hkeep⟩ := h.visited hgood
    refine ⟨ops', ?_, ?_, hkeep⟩
    · simp [VarAllocVisitor.visitOps, hop, hops]
    · rw [ByName.items, hitems, hrest, List.nil_append]
  fails hgood := by
    simp [VarAllocVisitor.visitOps, hop, h.fails hgood]

theorem Sync.Outcome.mono {s : Sync} {next next' : ℕ} {good : Prop} {ops : List Op}
    (h : s.Outcome next good ops) (hle : next' ≤ next) : s.Outcome next' good ops where
  visited hgood := by
    obtain ⟨ops', hops, hitems, hnumbered, hhandles⟩ := h.visited hgood
    exact ⟨ops', hops, hitems, opsNumbered_mono hnumbered hle, hhandles⟩
  fails := h.fails

section Names

variable {s : Sync} {next ref : ℕ} {var : String}

/-- The name of an unassigned variable is kept. -/
def Sync.keepName (s : Sync) (ref : Handle) (var : String) : Sync where
  visitor := { s.visitor with names := Function.update s.visitor.names ref (some var) }
  byName := s.byName.step (.name ref var)
  byRef := s.byRef.step (.name ref var)
  handles := ref :: s.handles

/-- The name of an assigned variable is replaced. -/
def Sync.dropName (s : Sync) (ref : Handle) (var : String) (new : Handle) : Sync where
  visitor := { s.visitor with replaced := Function.update s.visitor.replaced ref new }
  byName := s.byName.step (.name ref var)
  byRef := s.byRef
  handles := s.handles

theorem Sync.visitOp_keepName (s : Sync) {var : String} (ref : Handle)
    (hvar : s.visitor.vars var = none) :
    s.visitor.visitOp (.name ref var) =
      some ((s.keepName ref var).visitor, some (.name ref var)) := by
  simp [VarAllocVisitor.visitOp, hvar, Sync.keepName]

theorem Sync.visitOp_dropName (s : Sync) {var : String} {new : Handle} (ref : Handle)
    (hvar : s.visitor.vars var = some new) :
    s.visitor.visitOp (.name ref var) = some ((s.dropName ref var new).visitor, none) := by
  simp [VarAllocVisitor.visitOp, hvar, Sync.dropName]

theorem Sync.Agrees.keepName (h : s.Agrees next) (hle : next ≤ ref) :
    (s.keepName ref var).Agrees (ref + 1) where
  value_eq := h.value_eq
  unassigned := h.unassigned
  assigned var' new hvar := by
    obtain ⟨hlt, hmem, hname, val, hval, href⟩ := h.assigned var' new hvar
    have hne : new ≠ ref := Nat.ne_of_lt (Nat.lt_of_lt_of_le hlt hle)
    refine ⟨Nat.lt_succ_of_lt (Nat.lt_of_lt_of_le hlt hle), List.mem_cons_of_mem _ hmem, ?_,
      val, hval, ?_⟩
    · simp [Sync.keepName, Function.update_of_ne hne, hname]
    · simp [Sync.keepName, ByRef.step, Function.update_of_ne hne, href]
  replaced_eq ref' href' := h.replaced_eq ref' (Nat.le_trans hle (Nat.le_of_lt href'))
  names_eq ref' href' := by
    have hname := h.names_eq ref' (Nat.le_trans hle (Nat.le_of_lt href'))
    simp [Sync.keepName, Function.update_of_ne (Nat.ne_of_gt href'), hname]

theorem Sync.Agrees.dropName {new : Handle} (h : s.Agrees next) (hle : next ≤ ref) :
    (s.dropName ref var new).Agrees (ref + 1) where
  value_eq := h.value_eq
  unassigned := h.unassigned
  assigned var' new' hvar := by
    obtain ⟨hlt, hrest⟩ := h.assigned var' new' hvar
    exact ⟨Nat.lt_succ_of_lt (Nat.lt_of_lt_of_le hlt hle), hrest⟩
  replaced_eq ref' href' := by
    have hreplaced := h.replaced_eq ref' (Nat.le_trans hle (Nat.le_of_lt href'))
    simp [Sync.dropName, Function.update_of_ne (Nat.ne_of_gt href'), hreplaced]
  names_eq ref' href' := h.names_eq ref' (Nat.le_trans hle (Nat.le_of_lt href'))

theorem Sync.Pending.keepName {pending : Option (Handle × String)} (h : s.Pending next pending)
    (hle : next ≤ ref) : (s.keepName ref var).Pending (ref + 1) pending := by
  cases pending with
  | none => trivial
  | some pending =>
    obtain ⟨href, hname, hreplaced, hmem, hvar⟩ := h
    have hne : pending.1 ≠ ref := Nat.ne_of_lt (Nat.lt_of_lt_of_le href hle)
    have hne' : s.visitor.replaced pending.1 ≠ ref :=
      Nat.ne_of_lt (Nat.lt_of_lt_of_le hreplaced hle)
    refine ⟨Nat.lt_succ_of_lt (Nat.lt_of_lt_of_le href hle), ?_,
      Nat.lt_succ_of_lt (Nat.lt_of_lt_of_le hreplaced hle), List.mem_cons_of_mem _ hmem, ?_⟩
    · simp [Sync.keepName, ByName.step, Function.update_of_ne hne, hname]
    · simp [Sync.keepName, Function.update_of_ne hne', hvar]

theorem Sync.Pending.dropName {pending : Option (Handle × String)} {new : Handle}
    (h : s.Pending next pending) (hle : next ≤ ref) :
    (s.dropName ref var new).Pending (ref + 1) pending := by
  cases pending with
  | none => trivial
  | some pending =>
    obtain ⟨href, hname, hreplaced, hmem, hvar⟩ := h
    have hne : pending.1 ≠ ref := Nat.ne_of_lt (Nat.lt_of_lt_of_le href hle)
    refine ⟨Nat.lt_succ_of_lt (Nat.lt_of_lt_of_le href hle), ?_, ?_, ?_, ?_⟩
    · simp [Sync.dropName, ByName.step, Function.update_of_ne hne, hname]
    · simpa [Sync.dropName, Function.update_of_ne hne] using
        Nat.lt_succ_of_lt (Nat.lt_of_lt_of_le hreplaced hle)
    · simpa [Sync.dropName, Function.update_of_ne hne] using hmem
    · simpa [Sync.dropName, Function.update_of_ne hne] using hvar

/-- A kept name is the one that an assignment needs. -/
theorem Sync.Agrees.pending_keepName (h : s.Agrees next) (hle : next ≤ ref)
    (hvar : s.visitor.vars var = none) :
    (s.keepName ref var).Pending (ref + 1) (some (ref, var)) := by
  have hreplaced : s.visitor.replaced ref = ref := h.replaced_eq ref hle
  refine ⟨Nat.lt_succ_self ref, ?_, ?_, ?_, ?_⟩ <;>
    simp [Sync.keepName, ByName.step, hreplaced, hvar]

/-- A replaced name is not. -/
theorem Sync.Agrees.pending_dropName {new : Handle} (h : s.Agrees next) (hle : next ≤ ref)
    (hvar : s.visitor.vars var = some new) :
    (s.dropName ref var new).Pending (ref + 1) (some (ref, var)) := by
  obtain ⟨hlt, hmem, hname, -⟩ := h.assigned var new hvar
  refine ⟨Nat.lt_succ_self ref, ?_, ?_, ?_, ?_⟩
  · simp [Sync.dropName, ByName.step]
  · simpa [Sync.dropName] using Nat.lt_succ_of_lt (Nat.lt_of_lt_of_le hlt hle)
  · simpa [Sync.dropName] using hmem
  · simpa [Sync.dropName, hvar] using hname

end Names

theorem Sync.Outcome.congr {s : Sync} {next : ℕ} {good good' : Prop} {ops : List Op}
    (h : s.Outcome next good ops) (hgood : good ↔ good') : s.Outcome next good' ops :=
  ⟨fun hgood' ↦ h.visited (hgood.mpr hgood'), fun hgood' ↦ h.fails fun hg ↦ hgood' (hgood.mp hg)⟩

/-- The result of a load is traced back to a value. -/
def Sync.loadValue (s : Sync) (res val : Value) : Sync where
  visitor := s.visitor
  byName := { s.byName with value := Function.update s.byName.value res val }
  byRef := { s.byRef with value := Function.update s.byRef.value res val }
  handles := s.handles

theorem Sync.Agrees.loadValue {s : Sync} {next : ℕ} (h : s.Agrees next) (res val : Value) :
    (s.loadValue res val).Agrees next where
  value_eq := by simp only [Sync.loadValue, h.value_eq]
  unassigned := h.unassigned
  assigned := h.assigned
  replaced_eq := h.replaced_eq
  names_eq := h.names_eq

theorem Sync.Pending.loadValue {s : Sync} {next : ℕ} {pending : Option (Handle × String)}
    (h : s.Pending next pending) (res val : Value) :
    (s.loadValue res val).Pending next pending := by
  cases pending <;> exact h

/-- The variable of a name is assigned. -/
def Sync.assignVar (s : Sync) (new ref arg : ℕ) (var : String) : Sync where
  visitor := { s.visitor with vars := Function.update s.visitor.vars var (some new) }
  byName := s.byName.step (.assign new ref arg)
  byRef := s.byRef.step (.assign new (s.visitor.replaced ref) arg)
  handles := new :: s.handles

theorem Sync.Agrees.assignVar {s : Sync} {next new ref arg : ℕ} {var : String} (h : s.Agrees next)
    (hle : next ≤ new) (hname : s.byName.names ref = some var) :
    (s.assignVar new ref arg var).Agrees (new + 1) where
  value_eq := by
    simpa [Sync.assignVar, ByName.step, ByRef.step, hname] using h.value_eq
  unassigned var' hvar := by
    simp only [Sync.assignVar, Function.update_apply] at hvar
    split_ifs at hvar with heq
    simp [Sync.assignVar, ByName.step, hname, Function.update_of_ne heq, h.unassigned var' hvar]
  assigned var' new' hvar := by
    simp only [Sync.assignVar, Function.update_apply] at hvar
    split_ifs at hvar with heq
    · have hnew : new = new' := Option.some.inj hvar
      rw [heq, ← hnew]
      refine ⟨Nat.lt_succ_self new, List.mem_cons_self, h.names_eq new hle, s.byName.value arg, ?_⟩
      simp [Sync.assignVar, ByName.step, ByRef.step, hname, h.value_eq]
    · obtain ⟨hlt, hmem, hnames, val, hval, href⟩ := h.assigned var' new' hvar
      have hne : new' ≠ new := Nat.ne_of_lt (Nat.lt_of_lt_of_le hlt hle)
      refine ⟨Nat.lt_succ_of_lt (Nat.lt_of_lt_of_le hlt hle), List.mem_cons_of_mem _ hmem, hnames,
        val, ?_, ?_⟩
      · simp [Sync.assignVar, ByName.step, hname, Function.update_of_ne heq, hval]
      · simp [Sync.assignVar, ByRef.step, Function.update_of_ne hne, href]
  replaced_eq ref' href' := h.replaced_eq ref' (Nat.le_trans hle (Nat.le_of_lt href'))
  names_eq ref' href' := h.names_eq ref' (Nat.le_trans hle (Nat.le_of_lt href'))

/-- The variables that the rest of a function assigns to are different and not assigned yet. -/
def Sync.Single (s : Sync) (vars : List String) : Prop :=
  vars.Nodup ∧ ∀ var ∈ vars, s.visitor.vars var = none

theorem Sync.single_assignVar_iff {s : Sync} {new ref arg : ℕ} {var : String} {vars : List String}
    (hvar : s.visitor.vars var = none) :
    (s.assignVar new ref arg var).Single vars ↔ s.Single (var :: vars) := by
  constructor
  · rintro ⟨hnodup, hvars⟩
    have hne : ∀ var' ∈ vars, var' ≠ var := by
      intro var' hmem heq
      have hnone := hvars var' hmem
      simp [Sync.assignVar, heq] at hnone
    refine ⟨List.nodup_cons.mpr ⟨fun hmem ↦ hne var hmem rfl, hnodup⟩, fun var' hmem ↦ ?_⟩
    rcases List.mem_cons.mp hmem with heq | hmem
    · rw [heq, hvar]
    · have hnone := hvars var' hmem
      simpa [Sync.assignVar, Function.update_of_ne (hne var' hmem)] using hnone
  · rintro ⟨hnodup, hvars⟩
    have hcons := List.nodup_cons.mp hnodup
    refine ⟨hcons.2, fun var' hmem ↦ ?_⟩
    have hne : var' ≠ var := fun heq ↦ hcons.1 (heq ▸ hmem)
    simpa [Sync.assignVar, Function.update_of_ne hne] using hvars var' (List.mem_cons_of_mem _ hmem)

theorem ByName.step_load (st : ByName) (res : Value) (ref : Handle) :
    st.step (.load res ref) =
      match st.lookup ref with
      | some val => { st with value := Function.update st.value res val }
      | none => st := rfl

theorem ByRef.step_load (st : ByRef) (res : Value) (ref : Handle) :
    st.step (.load res ref) =
      match st.refs ref with
      | .value val => { st with value := Function.update st.value res val }
      | _ => st := rfl

/-- A name with a load of it, for an unassigned variable -/
theorem Sync.Outcome.load_unassigned {s : Sync} {next ref res : ℕ} {var : String} {good : Prop}
    {ops : List Op} (hagrees : s.Agrees next) (hle : next ≤ ref) (hlt : ref < res)
    (hvar : s.visitor.vars var = none) (h : (s.keepName ref var).Outcome (res + 1) good ops) :
    s.Outcome next good (.name ref var :: .load res ref :: ops) := by
  have hlookup : (s.byName.step (.name ref var)).lookup ref = none := by
    simp [ByName.step, ByName.lookup, hagrees.unassigned var hvar]
  have hname : (s.byName.step (.name ref var)).names ref = some var := by
    simp [ByName.step]
  have href : (s.byRef.step (.name ref var)).refs ref = .name var := by
    simp [ByRef.step]
  have hreplaced : s.visitor.replaced ref = ref := hagrees.replaced_eq ref hle
  have hbyName : (s.byName.step (.name ref var)).step (.load res ref) =
      s.byName.step (.name ref var) := by
    rw [ByName.step_load, hlookup]
  have hbyRef : (s.byRef.step (.name ref var)).step (.load res ref) =
      s.byRef.step (.name ref var) := by
    rw [ByRef.step_load, href]
  have hload : (s.keepName ref var).visitor.visitOp (.load res ref) =
      some ((s.keepName ref var).visitor, some (.load res ref)) := by
    simp [VarAllocVisitor.visitOp, Sync.keepName, hreplaced]
  refine .keep (s.visitOp_keepName ref hvar) rfl hle trivial ?_
  refine .keep hload ?_ ⟨hlt, hlt⟩ List.mem_cons_self ?_
  · rw [ByRef.opItems, ByName.opItems, hlookup, hname, href]
  · rw [hbyName, hbyRef]
    exact h

/-- A name with a load of it, for an assigned variable -/
theorem Sync.Outcome.load_assigned {s : Sync} {next ref res : ℕ} {var : String} {new : Handle}
    {good : Prop} {ops : List Op} (hagrees : s.Agrees next) (hle : next ≤ ref) (hlt : ref < res)
    (hvar : s.visitor.vars var = some new)
    (h : ∀ val, ((s.dropName ref var new).loadValue res val).Outcome (res + 1) good ops) :
    s.Outcome next good (.name ref var :: .load res ref :: ops) := by
  obtain ⟨hnew, hmem, -, val, hval, href⟩ := hagrees.assigned var new hvar
  have hlookup : (s.byName.step (.name ref var)).lookup ref = some val := by
    simp [ByName.step, ByName.lookup, hval]
  have hbyName : (s.byName.step (.name ref var)).step (.load res ref) =
      ((s.dropName ref var new).loadValue res val).byName := by
    rw [ByName.step_load, hlookup]
    rfl
  have hbyRef : s.byRef.step (.load res new) =
      ((s.dropName ref var new).loadValue res val).byRef := by
    rw [ByRef.step_load, href]
    rfl
  have hnew' : new < res := Nat.lt_trans (Nat.lt_of_lt_of_le hnew hle) hlt
  have hload : (s.dropName ref var new).visitor.visitOp (.load res ref) =
      some ((s.dropName ref var new).visitor, some (.load res new)) := by
    simp [VarAllocVisitor.visitOp, Sync.dropName]
  refine .drop (s.visitOp_dropName ref hvar) rfl ?_
  refine .keep hload ?_ ⟨Nat.le_trans hle (Nat.le_of_lt hlt), hnew'⟩ hmem ?_
  · rw [ByRef.opItems, ByName.opItems, hlookup, href]
  · rw [hbyName, hbyRef]
    exact h val

theorem Sync.Outcome.assign {s : Sync} {next new arg : ℕ} {ref : Handle} {var : String}
    {nested : Prop} {vars : List String} {ops : List Op} (hle : next ≤ new) (harg : arg < new)
    (hpending : s.Pending next (some (ref, var)))
    (h : s.visitor.vars var = none →
      (s.assignVar new ref arg var).Outcome (new + 1)
        (nested ∧ (s.assignVar new ref arg var).Single vars) ops) :
    s.Outcome next (nested ∧ s.Single (var :: vars)) (.assign new ref arg :: ops) := by
  obtain ⟨-, -, -, hmem, hname⟩ := hpending
  cases hvar : s.visitor.vars var with
  | some new' =>
    rw [hvar] at hname
    refine ⟨fun hgood ↦ ?_, fun _ ↦ ?_⟩
    · rw [hgood.2.2 var List.mem_cons_self] at hvar
      exact absurd hvar (by simp)
    · simp [VarAllocVisitor.visitOps, VarAllocVisitor.visitOp, hname]
  | none =>
    rw [hvar] at hname
    have hsingle : (s.assignVar new ref arg var).Single vars ↔ s.Single (var :: vars) :=
      Sync.single_assignVar_iff hvar
    have hop : s.visitor.visitOp (.assign new ref arg) =
        some ((s.assignVar new ref arg var).visitor,
          some (.assign new (s.visitor.replaced ref) arg)) := by
      simp [VarAllocVisitor.visitOp, hname, Sync.assignVar]
    exact (Sync.Outcome.keep hop rfl ⟨hle, harg⟩ hmem (h hvar)).congr
      (and_congr_right fun _ ↦ hsingle)

theorem Sync.Outcome.func {s : Sync} {next : ℕ} {good good' : Prop} {name : String}
    {args : List Value} {body ops : List Op} (hbody : Sync.init.Outcome 0 good' body)
    (h : s.Outcome next good ops) : s.Outcome next (good' ∧ good) (.func name args body :: ops) := by
  by_cases hgood : good'
  · obtain ⟨body', hvisit, hitems, hnumbered, hhandles⟩ := hbody.visited hgood
    have hvisit' : VarAllocVisitor.init.visitOps body = some body' := hvisit
    have hitems' : ByRef.init.items body' = ByName.init.items body := hitems
    have hop : s.visitor.visitOp (.func name args body) =
        some (s.visitor, some (.func name args body')) := by
      simp [VarAllocVisitor.visitOp, hvisit']
    refine (Sync.Outcome.keep hop ?_ hnumbered hhandles h).congr (and_iff_right hgood).symm
    rw [ByRef.opItems, ByName.opItems, hitems']
  · have hvisit : VarAllocVisitor.init.visitOps body = none := hbody.fails hgood
    refine ⟨fun hgood' ↦ absurd hgood'.1 hgood, fun _ ↦ ?_⟩
    simp [VarAllocVisitor.visitOps, VarAllocVisitor.visitOp, hvisit]

/-- The visitor succeeds for code in which no variable is assigned twice, and only for such code. -/
theorem Code.outcome {next : ℕ} {pending : Option (Handle × String)} {vars : List String}
    {nested : Prop} {ops : List Op} (code : Code next pending vars nested ops) {s : Sync}
    (hagrees : s.Agrees next) (hpending : s.Pending next pending) :
    s.Outcome next (nested ∧ s.Single vars) ops := by
  induction code generalizing s with
  | nil hnested =>
    have hsingle : s.Single [] := ⟨List.nodup_nil, by simp⟩
    exact ⟨fun _ ↦ ⟨[], rfl, rfl, trivial, trivial⟩, fun h ↦ absurd ⟨hnested, hsingle⟩ h⟩
  | @load next pending vars nested ops ref res var hle hlt _ ih =>
    have hnext : ref + 1 ≤ res + 1 := Nat.succ_le_succ (Nat.le_of_lt hlt)
    cases hvar : s.visitor.vars var with
    | none =>
      exact .load_unassigned hagrees hle hlt hvar
        (ih ((hagrees.keepName hle).mono hnext) ((hpending.keepName hle).mono hnext))
    | some new =>
      refine .load_assigned hagrees hle hlt hvar fun val ↦ ?_
      exact ih (((hagrees.dropName hle).loadValue res val).mono hnext)
        (((hpending.dropName hle).loadValue res val).mono hnext)
  | @other next pending vars nested ops res kind operands hle _ ih =>
    have hnext : next ≤ res + 1 := Nat.le_succ_of_le hle
    refine .keep rfl ?_ hle trivial (ih (hagrees.mono hnext) (hpending.mono hnext))
    rw [ByRef.opItems, ByName.opItems, hagrees.value_eq]
  | @name next vars nested ops ref var hle _ ih =>
    cases hvar : s.visitor.vars var with
    | none =>
      have hrest := ih (hagrees.keepName hle) (hagrees.pending_keepName hle hvar)
      exact .keep (s.visitOp_keepName ref hvar) rfl hle trivial hrest
    | some new =>
      have hrest := ih (hagrees.dropName hle) (hagrees.pending_dropName hle hvar)
      exact .drop (s.visitOp_dropName ref hvar) rfl (hrest.mono (Nat.le_succ_of_le hle))
  | assign hle harg _ ih =>
    exact .assign hle harg hpending fun _ ↦ ih (hagrees.assignVar hle hpending.2.1) trivial
  | @func next vars vars' nested nested' ops body name args _ _ ihBody ih =>
    have hbody := ihBody (Sync.init_agrees 0) trivial
    have hbody' : nested' ∧ Sync.init.Single vars' ↔ vars'.Nodup ∧ nested' :=
      ⟨fun h ↦ ⟨h.2.1, h.1⟩, fun h ↦ ⟨h.2, h.1, fun _ _ ↦ rfl⟩⟩
    exact ((hbody.congr hbody').func (ih hagrees hpending)).congr and_assoc.symm

theorem visitFunction_outcome (params : List String) (body : List Stmt) :
    Sync.init.Outcome 0 (SingleAssignment params body) (visitFunction params body) := by
  refine ((code_visitFunction params body).outcome (Sync.init_agrees 0) trivial).congr ?_
  exact ⟨fun h ↦ ⟨h.2.1, h.1⟩, fun h ↦ ⟨h.2, h.1, fun _ _ ↦ rfl⟩⟩

/-! ## Resolution -/

/-- What the patterns preserve -/
theorem patternSteps_preserve {ops ops' : List Op} (hsteps : ReflTransGen PatternStep ops ops')
    (hnumbered : opsNumbered 0 ops) (hhandles : opsHandlesDefined [] ops) :
    opsNumbered 0 ops' ∧ opsHandlesDefined [] ops' ∧
      ByRef.init.items ops' = ByRef.init.items ops := by
  induction hsteps with
  | refl => exact ⟨hnumbered, hhandles, rfl⟩
  | tail _ hstep ih =>
    obtain ⟨hnumbered', hhandles', hitems⟩ := ih
    exact ⟨hstep.numbered hnumbered', hstep.handlesDefined hhandles',
      (hstep.items_eq hnumbered' _).trans hitems⟩

end DeclarativeMlir.Oec
