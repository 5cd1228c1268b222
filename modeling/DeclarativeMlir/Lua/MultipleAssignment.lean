import DeclarativeMlir.Library.OrderedStores
import DeclarativeMlir.Library.Segments
import DeclarativeMlir.Lua.CellMachine
import DeclarativeMlir.Lua.Generator
import Mathlib.Data.List.GetD

/-!
# Multiple assignment

`handleAssignList` packs the values of a list of expressions, unpacks them and assigns them one by
one. `elideConcatAndUnpack` removes the pack, `assignTableSet` and `elideAssign` turn the assigns
into stores or remove them. What remains reads its cells when a store is executed, where Lua
evaluates all expressions before the first assignment.
-/

namespace DeclarativeMlir.Lua.Cells

open OrderedStores Segments

/-! ## The passes -/

/-- What the patterns ask about the values of a program. -/
structure ValueInfo where
  definingOp : Value OpId → Option (Op OpId)
  hasOneUse : Value OpId → Bool
  parentOp : OpId → OpId
  isCaptured : Value OpId → Bool

/-- The ops of `handleAssignList` for values of the program. -/
def assignList (n : ℕ) (varList vals : List (Value OpId)) (tail : Option (Value OpId)) :
    Op OpId × Op OpId × List (Op OpId) :=
  (Generator.makeConcat (.concat n) .concat 1 (vals, tail.toList),
    create (.unpack n) .unpack [.res (.concat n) 0] varList.length,
    varList.zipIdx.map fun (tgt, i) ↦
      create (.assign n i) .assign [tgt, .res (.unpack n) i] 1)

theorem exists_getValsAndTail (exps : List Exp) :
    ∃ vals tail, Generator.getValsAndTail exps = (vals, Option.toList tail) := by
  induction exps with
  | nil => exact ⟨[], none, rfl⟩
  | cons e exps ih =>
    cases exps with
    | nil =>
      rw [Generator.getValsAndTail]
      split
      · exact ⟨[], some (Generator.expVal e true), rfl⟩
      · exact ⟨[Generator.expVal e true], none, rfl⟩
    | cons e' exps =>
      obtain ⟨vals, tail, h⟩ := ih
      refine ⟨Generator.expVal e false :: vals, tail, ?_⟩
      rw [Generator.getValsAndTail, h]
      simp

/-- The generator emits an `assignList`. -/
theorem exists_assignList (n : ℕ) (varList : List (Value OpId)) (exps : List Exp) :
    ∃ vals tail, Generator.handleAssignList n varList exps =
      (assignList n varList vals tail).1 :: (assignList n varList vals tail).2.1 ::
        (assignList n varList vals tail).2.2 := by
  obtain ⟨vals, tail, h⟩ := exists_getValsAndTail exps
  refine ⟨vals, tail, ?_⟩
  rw [Generator.handleAssignList, h]
  rfl

/-- The op that is created and the values that replace the results of `unpack`. -/
def elideConcatAndUnpack (concat unpack : Op OpId) : Option (Op OpId × List (Value OpId)) :=
  match concat.name, concat.attr with
  | .concat, .segments vals _ =>
    let newVals := (concat.operands.take vals).take unpack.numResults
    let nVals := unpack.numResults - newVals.length
    match concat.operands.drop vals with
    | [] =>
      let nil := create (Naming.new unpack.id 0) .nil [] 1
      some (nil, newVals ++ List.replicate nVals (.res nil.id 0))
    | tail :: _ =>
      let rest := create (Naming.new unpack.id 0) .unpack [tail] nVals
      some (rest, newVals ++ rest.results)
  | _, _ => none

/-- What an assign becomes. -/
inductive Rewritten where
  | tableSet (id : OpId) (tbl key val : Value OpId)
  | copied (id : OpId) (tgt val : Value OpId)
  /-- the result is replaced by the value -/
  | elided (res val : Value OpId)

/-- There is no result where the assertion fails; the pattern does not apply to a target that is
not read from a table. -/
def assignTableSet (info : ValueInfo) (op : OpId) (tgt val : Value OpId) :
    Option (Option Rewritten) :=
  match info.definingOp tgt with
  | some (.mk _ .table_get _ [tbl, key] _ _ _) =>
    if info.hasOneUse tgt then some (some (.tableSet (Naming.new op 0) tbl key val)) else none
  | _ => some none

/-- There is no result where the parent of no op is asked for. -/
def elideAssign (info : ValueInfo) (op : OpId) (tgt val : Value OpId) : Option Rewritten :=
  match info.definingOp tgt with
  | some (.mk alloc .alloc _ _ _ _ _) =>
    if info.hasOneUse val then
      (info.definingOp val).map fun valOp ↦
        if info.parentOp alloc ≠ info.parentOp valOp.id || info.isCaptured tgt then
          .copied (Naming.new op 0) tgt val
        else .elided (.res op 0) val
    else some (.copied (Naming.new op 0) tgt val)
  | _ => some (.copied (Naming.new op 0) tgt val)

/-- `varAllocPass` applies `elideAssign` where `assignTableSet` has left an assign. -/
def rewriteAssign (tables values : ValueInfo) (op : OpId) (tgt val : Value OpId) :
    Option Rewritten := do
  match ← assignTableSet tables op tgt val with
  | some set => some set
  | none => elideAssign values op tgt val

/-- The results of `unpack` are replaced by `newVals`. -/
def replaceResults (unpack : OpId) (newVals : List (Value OpId)) : Value OpId → Value OpId
  | .res op i => if op = unpack then newVals.getD i (.res op i) else .res op i
  | .arg block i => .arg block i

/-- What the passes make of the ops of a multiple assignment. -/
def rewriteAssignList (tables values : ValueInfo) :
    Op OpId × Op OpId × List (Op OpId) → Option (Op OpId × List Rewritten)
  | (concat, unpack, assigns) => do
    let (created, newVals) ← elideConcatAndUnpack concat unpack
    let rewritten ← assigns.mapM fun assign ↦
      match assign.operands.map (replaceResults unpack.id newVals) with
      | [tgt, val] => rewriteAssign tables values assign.id tgt val
      | _ => none
    some (created, rewritten)

/-! ## Stores -/

/-- The effects of a multiple assignment besides those on cells. -/
inductive Effect where
  | tableSet
  /-- later uses of a result refer to a cell -/
  | elided (res : Value OpId)

namespace Rewritten

def ops : Rewritten → List (Op OpId)
  | tableSet id tbl key val => [create id .table_set [tbl, key, val] 0]
  | copied id tgt val => [create id .copy [tgt, val] 0]
  | elided _ _ => []

def isElided : Rewritten → Bool
  | elided _ _ => true
  | _ => false

def val : Rewritten → Value OpId
  | tableSet _ _ _ val | copied _ _ val | elided _ val => val

/-- The values that say where the object is stored. -/
def places : Rewritten → List (Value OpId)
  | tableSet _ tbl key _ => [tbl, key]
  | copied _ tgt _ => [tgt]
  | elided _ _ => []

/-- The cells that are read and written. -/
def store (addr : Value OpId → ℕ) : Rewritten → Store ℕ Effect
  | tableSet _ tbl key val => .emit .tableSet [addr tbl, addr key, addr val]
  | copied _ tgt val => .copy (addr tgt) (addr val)
  | elided res val => .emit (.elided res) [addr val]

/-- What Lua asks for if `obj` is the value of the assignment. -/
def prescribed (s : State W) (obj : TObject) : Rewritten → Option (Stored ℕ TObject Effect)
  | tableSet _ tbl key _ => do
    let tbl ← s.content tbl
    let key ← s.content key
    some (.emitted .tableSet [tbl, key, obj])
  | copied _ tgt _ => do
    let cell ← s.cell tgt
    some (.wrote cell obj)
  | elided res _ => some (.emitted (.elided res) [obj])

/-- The object that later uses of the result find. -/
def bound (s : State W) : Rewritten → Option (Stored ℕ TObject Effect)
  | elided res val => (s.content val).map fun obj ↦ .emitted (.elided res) [obj]
  | _ => none

end Rewritten

/-- The assigns with their numbers. Stores are made in order; the results of the others are used
behind the statement. -/
def inTurn (rewritten : List Rewritten) : List (Rewritten × ℕ) :=
  (rewritten.zipIdx.filter fun assign ↦ !assign.1.isElided) ++
    rewritten.zipIdx.filter fun assign ↦ assign.1.isElided

/-- The object that an op stores. -/
def State.storeOf (s : State W) (op : Op OpId) : Option (Stored ℕ TObject Effect) :=
  match op.name, op.operands with
  | .copy, [tgt, val] => do
    let cell ← s.cell tgt
    let obj ← s.content val
    some (.wrote cell obj)
  | .table_set, [tbl, key, val] => do
    let tbl ← s.content tbl
    let key ← s.content key
    let val ← s.content val
    some (.emitted .tableSet [tbl, key, val])
  | _, _ => none

/-- The stores that `ops` make. -/
def Machine.stores (m : Machine W) : List (Op OpId) → State W → List (Stored ℕ TObject Effect)
  | [], _ => []
  | op :: ops, s =>
    (s.storeOf op).toList ++
      match m.execOp op s with
      | some s' => stores m ops s'
      | none => []

/-- What a multiple assignment does between the states `t` and `s'`. -/
def Machine.assigned (m : Machine W) (rewritten : List Rewritten) (t s' : State W) :
    List (Stored ℕ TObject Effect) :=
  m.stores (rewritten.flatMap Rewritten.ops) t ++ rewritten.filterMap (Rewritten.bound s')

/-- What Lua asks for if `objs` are the values of the expressions; missing ones are nil. -/
def luaAssigned (s : State W) (objs : List TObject) (rewritten : List Rewritten) :
    Option (List (Stored ℕ TObject Effect)) :=
  (inTurn rewritten).mapM fun assign ↦ assign.1.prescribed s (objs.getD assign.2 .nil)

/-- The cells a value refers to. -/
def State.addr (s : State W) (value : Value OpId) : ℕ := (s.cell value).getD 0

/-- The stores of a multiple assignment in the state in which they are made. -/
def storesAt (t : State W) (rewritten : List Rewritten) : List (Store ℕ Effect) :=
  (inTurn rewritten).map fun assign ↦ assign.1.store t.addr

/-- The ops that the passes create. -/
def createdIds (created : Op OpId) (rewritten : List Rewritten) : List OpId :=
  created.id :: (rewritten.flatMap Rewritten.ops).map Op.id

/-- The value refers to a cell, and is not a result of the ops `ids`. -/
def State.Allocated (s : State W) (ids : List OpId) (value : Value OpId) : Prop :=
  value.owner ∉ ids ∧ ∃ cell < s.memory.nextCell, s.env value = some (.ref cell)

/-- A table is not kept in the cells of variables. -/
def Machine.TableSetKeepsCells (m : Machine W) : Prop :=
  ∀ op s s', op.name = .table_set → m.other op s = some s' → s'.memory.cells = s.memory.cells

/-! ## One assign -/

theorem State.addr_of_ref {s : State W} {value : Value OpId} {cell : ℕ}
    (h : s.env value = some (.ref cell)) : s.addr value = cell := by
  rw [State.addr, s.cell_eq_some.mpr h, Option.getD_some]

theorem State.content_addr {s : State W} {value : Value OpId}
    (h : ∃ cell, s.env value = some (.ref cell)) :
    s.content value = some (s.memory.cells (s.addr value)) := by
  obtain ⟨cell, hcell⟩ := h
  rw [s.content_of_ref hcell, State.addr_of_ref hcell]

theorem State.cell_addr {s : State W} {value : Value OpId}
    (h : ∃ cell, s.env value = some (.ref cell)) : s.cell value = some (s.addr value) := by
  obtain ⟨cell, hcell⟩ := h
  rw [s.cell_eq_some.mpr hcell, State.addr_of_ref hcell]

namespace Machine

variable {m : Machine W} {s s' t u u' : State W} {ids : List OpId}

theorem stores_append {ops : List (Op OpId)} (ops' : List (Op OpId))
    (hexec : m.execOps ops u = some u') :
    m.stores (ops ++ ops') u = m.stores ops u ++ m.stores ops' u' := by
  induction ops generalizing u with
  | nil => rw [Option.some.inj hexec, List.nil_append, stores, List.nil_append]
  | cons op ops ih =>
    obtain ⟨v, hop, hops⟩ := m.execOps_cons_eq_some.mp hexec
    rw [List.cons_append, stores, stores, hop]
    simp only [ih hops, List.append_assoc]

theorem stores_singleton (op : Op OpId) (u : State W) :
    m.stores [op] u = (u.storeOf op).toList := by
  rw [stores]
  cases m.execOp op u <;> simp [stores]

/-- What the ops of one assign do to the cells and which stores they make. -/
theorem exec_rewritten (hsets : m.TableSetKeepsCells) (assign : Rewritten)
    (hids : ∀ op ∈ assign.ops, op.id ∈ ids)
    (hcells : ∀ value ∈ assign.val :: assign.places,
      value.owner ∉ ids ∧ ∃ cell, t.env value = some (.ref cell))
    (henv : ∀ value, value.owner ∉ ids → u.env value = t.env value)
    (hexec : m.execOps assign.ops u = some u') :
    (∀ value, value.owner ∉ ids → u'.env value = t.env value) ∧
      u'.memory.cells = (assign.store t.addr).run u.memory.cells ∧
      m.stores assign.ops u =
        if assign.isElided then [] else [(assign.store t.addr).event u.memory.cells] := by
  have hrefs : ∀ value ∈ assign.val :: assign.places,
      u.env value = some (.ref (t.addr value)) := by
    intro value hvalue
    obtain ⟨howner, cell, hcell⟩ := hcells value hvalue
    rw [henv value howner, hcell, State.addr_of_ref hcell]
  cases assign with
  | tableSet id tbl key val =>
    have htbl := u.content_of_ref (hrefs tbl (by simp [Rewritten.places]))
    have hkey := u.content_of_ref (hrefs key (by simp [Rewritten.places]))
    have hval := u.content_of_ref (hrefs val (by simp [Rewritten.val]))
    rw [Rewritten.ops] at hexec hids ⊢
    obtain ⟨v, hop, hnil⟩ := m.execOps_cons_eq_some.mp hexec
    have hother : m.other (create id .table_set [tbl, key, val] 0) u = some v := hop
    have henv' : ∀ value, value.owner ∉ ids → v.env value = t.env value := by
      intro value howner
      have hdefs : value.owner ∉ (create id .table_set [tbl, key, val] 0).defs := by
        intro hmem
        rw [create, Op.defs, defsRegions, List.mem_singleton] at hmem
        exact howner (hmem ▸ hids _ List.mem_cons_self)
      rw [m.env_other hother value hdefs, henv value howner]
    rw [← Option.some.inj hnil]
    refine ⟨henv', hsets _ _ _ rfl hother, ?_⟩
    have hstore : u.storeOf (create id .table_set [tbl, key, val] 0) =
        some (.emitted .tableSet [u.memory.cells (t.addr tbl), u.memory.cells (t.addr key),
          u.memory.cells (t.addr val)]) := by
      change (u.content tbl).bind (fun tbl ↦ (u.content key).bind fun key ↦
        (u.content val).bind fun val ↦ _) = _
      rw [htbl, hkey, hval]
      rfl
    rw [stores_singleton, hstore]
    rfl
  | copied id tgt val =>
    have htgt := hrefs tgt (by simp [Rewritten.places])
    have hval := hrefs val (by simp [Rewritten.val])
    rw [Rewritten.ops] at hexec ⊢
    rw [m.execOps_cons_of_some (m.execOp_copy u id htgt hval)] at hexec
    rw [← Option.some.inj hexec]
    refine ⟨henv, ?_, ?_⟩
    · funext cell
      rw [Rewritten.store, Store.run, Function.update_apply]
      rfl
    · have hstore : u.storeOf (create id .copy [tgt, val] 0) =
          some (.wrote (t.addr tgt) (u.memory.cells (t.addr val))) := by
        change (u.cell tgt).bind (fun cell ↦ (u.content val).bind fun obj ↦ _) = _
        rw [u.cell_eq_some.mpr htgt, u.content_of_ref hval]
        rfl
      rw [stores_singleton, hstore]
      rfl
  | elided res val =>
    rw [← Option.some.inj hexec]
    exact ⟨henv, rfl, rfl⟩

/-- The ops of all assigns make the stores one after another. -/
theorem execOps_rewritten (hsets : m.TableSetKeepsCells) (assigns : List Rewritten)
    (hids : ∀ assign ∈ assigns, ∀ op ∈ assign.ops, op.id ∈ ids)
    (hcells : ∀ assign ∈ assigns, ∀ value ∈ assign.val :: assign.places,
      value.owner ∉ ids ∧ ∃ cell, t.env value = some (.ref cell))
    (henv : ∀ value, value.owner ∉ ids → u.env value = t.env value)
    (hexec : m.execOps (assigns.flatMap Rewritten.ops) u = some u') :
    let written := (assigns.filter fun assign ↦ !assign.isElided).map (Rewritten.store t.addr)
    (∀ value, value.owner ∉ ids → u'.env value = t.env value) ∧
      u'.memory.cells = after written u.memory.cells ∧
      m.stores (assigns.flatMap Rewritten.ops) u = inOrder written u.memory.cells := by
  intro written
  induction assigns generalizing u with
  | nil =>
    rw [← Option.some.inj hexec]
    exact ⟨henv, rfl, rfl⟩
  | cons assign assigns ih =>
    rw [List.flatMap_cons, execOps_append] at hexec
    obtain ⟨v, hfirst, hrest⟩ := Option.bind_eq_some_iff.mp hexec
    obtain ⟨henv', hcells', hstores⟩ :=
      exec_rewritten hsets assign (hids assign List.mem_cons_self)
        (hcells assign List.mem_cons_self) henv hfirst
    obtain ⟨henv'', hcells'', hstores'⟩ :=
      ih (fun assign hmem ↦ hids assign (.tail _ hmem))
        (fun assign hmem ↦ hcells assign (.tail _ hmem)) henv' hrest
    refine ⟨henv'', ?_⟩
    rw [List.flatMap_cons, stores_append _ hfirst, hstores, hstores', hcells'', hcells']
    cases assign with
    | tableSet id tbl key val => exact ⟨rfl, rfl⟩
    | copied id tgt val => exact ⟨rfl, rfl⟩
    | elided res val => exact ⟨rfl, rfl⟩

end Machine

theorem map_fst_filter_zipIdx (assigns : List Rewritten) (keep : Rewritten → Bool)
    (f : Rewritten → Store ℕ Effect) :
    ((assigns.zipIdx.filter fun assign ↦ keep assign.1).map fun assign ↦ f assign.1) =
      (assigns.filter keep).map f := by
  have hfst : assigns.zipIdx.map Prod.fst = assigns := List.zipIdx_map_fst 0 assigns
  calc
    _ = ((assigns.zipIdx.map Prod.fst).filter keep).map f := by
      rw [List.filter_map, List.map_map]
      rfl
    _ = (assigns.filter keep).map f := by rw [hfst]

theorem storesAt_eq (t : State W) (assigns : List Rewritten) :
    storesAt t assigns =
      (assigns.filter fun assign ↦ !assign.isElided).map (Rewritten.store t.addr) ++
        (assigns.filter Rewritten.isElided).map (Rewritten.store t.addr) := by
  rw [storesAt, inTurn, List.map_append,
    map_fst_filter_zipIdx assigns (fun assign ↦ !assign.isElided),
    map_fst_filter_zipIdx assigns Rewritten.isElided]

/-- The objects that are found behind the statement. -/
theorem filterMap_bound {t s' : State W} (assigns : List Rewritten)
    (hcells : ∀ assign ∈ assigns, ∃ cell, t.env assign.val = some (.ref cell))
    (henv : ∀ assign ∈ assigns, s'.env assign.val = t.env assign.val) :
    assigns.filterMap (Rewritten.bound s') =
      atOnce ((assigns.filter Rewritten.isElided).map (Rewritten.store t.addr))
        s'.memory.cells := by
  induction assigns with
  | nil => rfl
  | cons assign assigns ih =>
    have hrest := ih (fun assign hmem ↦ hcells assign (.tail _ hmem))
      fun assign hmem ↦ henv assign (.tail _ hmem)
    cases assign with
    | tableSet id tbl key val => exact hrest
    | copied id tgt val => exact hrest
    | elided res val =>
      obtain ⟨cell, hcell⟩ := hcells _ List.mem_cons_self
      change t.env val = some (.ref cell) at hcell
      have hval : s'.content val = some (s'.memory.cells (t.addr val)) := by
        rw [State.addr_of_ref hcell]
        exact s'.content_of_ref ((henv _ List.mem_cons_self).trans hcell)
      have hbound : (Rewritten.elided res val).bound s' =
          some (.emitted (.elided res) [s'.memory.cells (t.addr val)]) := by
        rw [Rewritten.bound, hval]
        rfl
      rw [List.filterMap_cons_some hbound, hrest]
      rfl

/-- What a multiple assignment does is what its stores do one after another. -/
theorem assigned_eq_inOrder {m : Machine W} (hsets : m.TableSetKeepsCells)
    {ids : List OpId} {assigns : List Rewritten} {t s' : State W}
    (hids : ∀ assign ∈ assigns, ∀ op ∈ assign.ops, op.id ∈ ids)
    (hcells : ∀ assign ∈ assigns, ∀ value ∈ assign.val :: assign.places,
      value.owner ∉ ids ∧ ∃ cell, t.env value = some (.ref cell))
    (hrun : m.execOps (assigns.flatMap Rewritten.ops) t = some s') :
    m.assigned assigns t s' = inOrder (storesAt t assigns) t.memory.cells := by
  obtain ⟨henv, hcells', hstores⟩ :=
    m.execOps_rewritten hsets assigns hids hcells (fun _ _ ↦ rfl) hrun
  have hval : ∀ assign ∈ assigns,
      assign.val.owner ∉ ids ∧ ∃ cell, t.env assign.val = some (.ref cell) :=
    fun assign hmem ↦ hcells assign hmem _ List.mem_cons_self
  have hbound := filterMap_bound assigns (fun assign hmem ↦ (hval assign hmem).2)
    fun assign hmem ↦ henv _ (hval assign hmem).1
  have hkeep : ∀ store ∈ (assigns.filter Rewritten.isElided).map (Rewritten.store t.addr),
      store.run s'.memory.cells = s'.memory.cells := by
    intro store hstore
    obtain ⟨assign, hassign, rfl⟩ := List.mem_map.mp hstore
    cases assign with
    | tableSet id tbl key val => simp [Rewritten.isElided] at hassign
    | copied id tgt val => simp [Rewritten.isElided] at hassign
    | elided res val => rfl
  rw [Machine.assigned, hstores, hbound, storesAt_eq, inOrder_append, ← hcells',
    inOrder_of_run_eq hkeep]

/-! ## The values of the expressions -/

section

variable {m : Machine W} {n : ℕ} {varList vals : List (Value OpId)} {tail : Option (Value OpId)}
  {created : Op OpId} {newVals : List (Value OpId)} {s t : State W} {objs : List TObject}
  {ids : List OpId} {id : OpId}

theorem concat_assignList :
    s.concat (assignList n varList vals tail).1 =
      (vals.mapM s.content).bind fun objs ↦
        (tail.toList.mapM s.pack).bind fun packs ↦ some (objs ++ packs.flatten) := by
  have htake : (vals ++ tail.toList).take vals.length = vals := List.take_left ..
  have hdrop : (vals ++ tail.toList).drop vals.length = tail.toList := List.drop_left ..
  change ((((vals ++ tail.toList).take vals.length).mapM s.content).bind fun objs ↦
    ((((vals ++ tail.toList).drop vals.length).mapM s.pack).bind fun packs ↦ _)) = _
  rw [htake, hdrop]

theorem elide_assignList :
    elideConcatAndUnpack (assignList n varList vals tail).1 (assignList n varList vals tail).2.1 =
      let id := OpId.new (.unpack n) 0
      let nVals := varList.length - (vals.take varList.length).length
      match tail with
      | none => some (create id .nil [] 1,
          vals.take varList.length ++ List.replicate nVals (.res id 0))
      | some tail => some (create id .unpack [tail] nVals,
          vals.take varList.length ++ (List.range nVals).map (.res id)) := by
  have htake : (vals ++ tail.toList).take vals.length = vals := List.take_left ..
  have hdrop : (vals ++ tail.toList).drop vals.length = tail.toList := List.drop_left ..
  unfold elideConcatAndUnpack
  simp only [assignList, Generator.makeConcat, Generator.create, create, Op.name, Op.attr,
    Op.operands, Op.numResults, Op.id, htake, hdrop]
  cases tail <;> rfl

theorem content_alloca {value : Value OpId} (news : List TObject) (hid : id ∈ ids)
    (hvalue : s.Allocated ids value) :
    (s.alloca id news).env value = s.env value ∧
      (s.alloca id news).content value = s.content value := by
  obtain ⟨howner, cell, hlt, hcell⟩ := hvalue
  have henv := s.env_alloca (fun heq ↦ howner (heq ▸ hid)) news
  constructor
  · exact henv
  · apply State.content_congr henv
    intro cell' hcell'
    rw [hcell, Option.some.injEq, Reg.ref.injEq] at hcell'
    rw [← hcell', s.cells_alloca id news hlt]

theorem content_alloca_self {news : List TObject} {j : ℕ} (hj : j < news.length) :
    (s.alloca id news).content (.res id j) = some news[j] := by
  rw [State.content_of_ref _ (s.env_alloca_self id hj), s.cells_alloca_new id hj]

/-- The values of the program come first, then those that are created. -/
theorem content_newVals {vobjs more : List TObject} (hid : id ∈ ids)
    (hvobjs : vals.mapM s.content = some vobjs) (hvals : ∀ value ∈ vals, s.Allocated ids value)
    (news : List TObject) {rest : List (Value OpId)}
    (hlength : rest.length = n - (vals.take n).length)
    (hrest : ∀ j value, rest[j]? = some value →
      (s.alloca id news).content value = some (more.getD j .nil)) (i : ℕ) {value : Value OpId}
    (hvalue : (vals.take n ++ rest)[i]? = some value) :
    (s.alloca id news).content value = some ((vobjs ++ more).getD i .nil) := by
  have hmap := mapM_eq_some_iff_map.mp hvobjs
  have hlen : vobjs.length = vals.length := by
    simpa using (congrArg List.length hmap).symm
  have htake : (vals.take n).length = min n vals.length := List.length_take
  by_cases hi : i < (vals.take n).length
  · rw [List.getElem?_append_left hi, List.getElem?_take_of_lt (by omega)] at hvalue
    have hmem := List.mem_of_getElem? hvalue
    have hi' : i < vobjs.length := by omega
    have hcontent : s.content value = some vobjs[i] := by
      have hget := congrArg (fun l ↦ l[i]?) hmap
      simpa [hvalue, hi'] using hget
    rw [(content_alloca news hid (hvals value hmem)).2, hcontent, List.getD_append _ _ _ _ hi',
      List.getD_eq_getElem _ _ hi']
  · rw [not_lt] at hi
    rw [List.getElem?_append_right hi] at hvalue
    have hj := (List.getElem?_eq_some_iff.mp hvalue).1
    have hall : (vals.take n).length = vobjs.length := by omega
    rw [hrest _ value hvalue, List.getD_append_right _ _ _ _ (by omega), hall]

/-- A value of the list is a value of the program or a result of the op that is created. -/
theorem owner_newVals
    (helide : elideConcatAndUnpack (assignList n varList vals tail).1
      (assignList n varList vals tail).2.1 = some (created, newVals)) :
    created.id = .new (.unpack n) 0 ∧
      ∀ value ∈ newVals, value ∈ vals ∨ value.owner = .new (.unpack n) 0 := by
  rw [elide_assignList] at helide
  cases tail with
  | none =>
    simp only [Option.some.injEq, Prod.mk.injEq] at helide
    rw [← helide.1, ← helide.2]
    refine ⟨rfl, fun value hvalue ↦ ?_⟩
    rcases List.mem_append.mp hvalue with htake | hnew
    · exact .inl (List.mem_of_mem_take htake)
    · exact .inr (List.eq_of_mem_replicate hnew ▸ rfl)
  | some tail =>
    simp only [Option.some.injEq, Prod.mk.injEq] at helide
    rw [← helide.1, ← helide.2]
    refine ⟨rfl, fun value hvalue ↦ ?_⟩
    rcases List.mem_append.mp hvalue with htake | hnew
    · exact .inl (List.mem_of_mem_take htake)
    · obtain ⟨j, -, hj⟩ := List.mem_map.mp hnew
      exact .inr (hj ▸ rfl)

/-- The op that is created leaves every place as it is and the values as Lua adjusts them. -/
theorem setup_spec
    (helide : elideConcatAndUnpack (assignList n varList vals tail).1
      (assignList n varList vals tail).2.1 = some (created, newVals))
    (hobjs : s.concat (assignList n varList vals tail).1 = some objs)
    (hid : created.id ∈ ids) (hvals : ∀ value ∈ vals, s.Allocated ids value)
    (hsetup : m.execOp created s = some t) :
    newVals.length = varList.length ∧
      (∀ i value, newVals[i]? = some value → t.content value = some (objs.getD i .nil)) ∧
      ∀ value, s.Allocated ids value →
        t.env value = s.env value ∧ t.content value = s.content value := by
  rw [concat_assignList] at hobjs
  obtain ⟨vobjs, hvobjs, hrest⟩ := Option.bind_eq_some_iff.mp hobjs
  obtain ⟨packs, hpacks, hconcat⟩ := Option.bind_eq_some_iff.mp hrest
  rw [elide_assignList] at helide
  have htake : (vals.take varList.length).length = min varList.length vals.length :=
    List.length_take
  cases tail with
  | none =>
    simp only [Option.some.injEq, Prod.mk.injEq] at helide
    obtain ⟨rfl, rfl⟩ := helide
    change .new (.unpack n) 0 ∈ ids at hid
    rw [m.execOp_nil, Option.some.injEq] at hsetup
    have hnil : packs = [] := (Option.some.inj hpacks).symm
    rw [hnil, Option.some.injEq] at hconcat
    rw [← hsetup, ← hconcat]
    refine ⟨?_, ?_, fun value hvalue ↦ content_alloca _ hid hvalue⟩
    · rw [List.length_append, List.length_replicate]
      omega
    · intro i value hvalue
      apply content_newVals hid hvobjs hvals _ (by rw [List.length_replicate]) _ i hvalue
      intro j value hvalue
      rw [List.eq_of_mem_replicate (List.mem_of_getElem? hvalue)]
      exact content_alloca_self (Nat.zero_lt_succ 0)
  | some tail =>
    simp only [Option.some.injEq, Prod.mk.injEq] at helide
    obtain ⟨rfl, rfl⟩ := helide
    change .new (.unpack n) 0 ∈ ids at hid
    have hmap := mapM_eq_some_iff_map.mp hpacks
    cases packs with
    | nil => simp at hmap
    | cons pack rest =>
      simp only [Option.toList_some, List.map_cons, List.map_nil, List.cons.injEq,
        List.nil_eq, List.map_eq_nil_iff] at hmap
      rw [hmap.2, List.flatten_cons, List.flatten_nil, List.append_nil,
        Option.some.injEq] at hconcat
      have hunpack : (s.pack tail).map (fun objs ↦ s.alloca (.new (.unpack n) 0)
          ((List.range (varList.length - (vals.take varList.length).length)).map
            fun i ↦ objs.getD i .nil)) = some t := hsetup
      rw [hmap.1, Option.map_some, Option.some.injEq] at hunpack
      rw [← hunpack, ← hconcat]
      refine ⟨?_, ?_, fun value hvalue ↦ content_alloca _ hid hvalue⟩
      · rw [List.length_append, List.length_map, List.length_range]
        omega
      · intro i value hvalue
        apply content_newVals hid hvobjs hvals _ (by rw [List.length_map, List.length_range]) _ i hvalue
        intro j value hvalue
        have hj := (List.getElem?_eq_some_iff.mp hvalue).1
        rw [List.length_map, List.length_range] at hj
        rw [List.getElem?_map, List.getElem?_range hj, Option.map_some, Option.some.injEq] at hvalue
        rw [← hvalue]
        apply (content_alloca_self (by rwa [List.length_map, List.length_range])).trans
        rw [List.getElem_map, List.getElem_range]

end

/-! ## The statement -/

/-- An assign stores its value by ops that are named after it. -/
def Rewritten.Replaces (assign : Rewritten) (op : OpId) (val : Value OpId) : Prop :=
  assign.val = val ∧ ∀ op' ∈ assign.ops, op'.id = .new op 0

section

variable {info tables values : ValueInfo} {op : OpId} {tgt tbl key val : Value OpId}
  {assign : Rewritten}

theorem replaces_tableSet : (Rewritten.tableSet (Naming.new op 0) tbl key val).Replaces op val :=
  ⟨rfl, fun _ hop ↦ List.mem_singleton.mp hop ▸ rfl⟩

theorem replaces_copied : (Rewritten.copied (Naming.new op 0) tgt val).Replaces op val :=
  ⟨rfl, fun _ hop ↦ List.mem_singleton.mp hop ▸ rfl⟩

theorem replaces_elided : (Rewritten.elided (.res op 0) val).Replaces op val :=
  ⟨rfl, fun _ hop ↦ absurd hop List.not_mem_nil⟩

theorem replaces_assignTableSet (h : assignTableSet info op tgt val = some (some assign)) :
    assign.Replaces op val := by
  unfold assignTableSet at h
  split at h
  · split_ifs at h
    rw [← Option.some.inj (Option.some.inj h)]
    exact replaces_tableSet
  · simp at h

theorem replaces_elideAssign (h : elideAssign info op tgt val = some assign) :
    assign.Replaces op val := by
  unfold elideAssign at h
  split at h
  · split_ifs at h
    · obtain ⟨valOp, -, hassign⟩ := Option.map_eq_some_iff.mp h
      split_ifs at hassign
      · rw [← hassign]
        exact replaces_copied
      · rw [← hassign]
        exact replaces_elided
    · rw [← Option.some.inj h]
      exact replaces_copied
  · rw [← Option.some.inj h]
    exact replaces_copied

theorem replaces_rewriteAssign (h : rewriteAssign tables values op tgt val = some assign) :
    assign.Replaces op val := by
  rw [rewriteAssign] at h
  obtain ⟨set, hset, hassign⟩ := Option.bind_eq_some_iff.mp h
  cases set with
  | some set =>
    rw [← Option.some.inj hassign]
    exact replaces_assignTableSet hset
  | none => exact replaces_elideAssign hassign

end

theorem rewriteAssignList_spec {tables values : ValueInfo} {n : ℕ}
    {varList vals : List (Value OpId)} {tail : Option (Value OpId)} {created : Op OpId}
    {rewritten : List Rewritten}
    (h : rewriteAssignList tables values (assignList n varList vals tail) =
      some (created, rewritten)) :
    ∃ newVals, elideConcatAndUnpack (assignList n varList vals tail).1
        (assignList n varList vals tail).2.1 = some (created, newVals) ∧
      (newVals.length = varList.length → ∀ (i : ℕ) (assign : Rewritten),
        rewritten[i]? = some assign →
          ∃ val, newVals[i]? = some val ∧ assign.Replaces (.assign n i) val) := by
  rw [assignList, rewriteAssignList] at h
  obtain ⟨⟨op, newVals⟩, helide, hrest⟩ := Option.bind_eq_some_iff.mp h
  obtain ⟨assigns, hassigns, heq⟩ := Option.bind_eq_some_iff.mp hrest
  simp only [Option.some.injEq, Prod.mk.injEq] at heq
  obtain ⟨rfl, rfl⟩ := heq
  refine ⟨newVals, helide, fun hlength i assign hassign ↦ ?_⟩
  have hmap := congrArg (fun l ↦ l[i]?) (mapM_eq_some_iff_map.mp hassigns)
  simp only [List.getElem?_map, hassign, Option.map_some, Option.map_eq_some_iff,
    List.getElem?_zipIdx, Nat.zero_add] at hmap
  obtain ⟨op, ⟨⟨tgt, j⟩, ⟨tgt', htgt, hpair⟩, rfl⟩, hrewrite⟩ := hmap
  rw [Prod.mk.injEq] at hpair
  have hi : i < newVals.length := hlength ▸ (List.getElem?_eq_some_iff.mp htgt).1
  have hreplaces := replaces_rewriteAssign hrewrite
  refine ⟨newVals[i], List.getElem?_eq_getElem hi, ?_⟩
  simpa [replaceResults, create, ← hpair.2, hi] using hreplaces

theorem getElem?_of_mem_inTurn {rewritten : List Rewritten} {assign : Rewritten × ℕ}
    (h : assign ∈ inTurn rewritten) : rewritten[assign.2]? = some assign.1 := by
  have hmem : assign ∈ rewritten.zipIdx := by
    rcases List.mem_append.mp h with hkept | helided
    · exact (List.mem_filter.mp hkept).1
    · exact (List.mem_filter.mp helided).1
  exact List.mem_zipIdx_iff_getElem?.mp hmem

/-- What Lua asks for is what a store does when it reads the cells in the state `t`. -/
theorem prescribed_eq_event {s t : State W} {assign : Rewritten} {obj : TObject}
    (hval : t.content assign.val = some obj)
    (hplaces : ∀ place ∈ assign.places, (∃ cell, t.env place = some (.ref cell)) ∧
      t.env place = s.env place ∧ t.content place = s.content place) :
    assign.prescribed s obj = some ((assign.store t.addr).event t.memory.cells) := by
  have hobj : t.memory.cells (t.addr assign.val) = obj := by
    obtain ⟨cell, hcell, -⟩ := Option.map_eq_some_iff.mp hval
    rw [State.content_addr ⟨cell, t.cell_eq_some.mp hcell⟩] at hval
    exact Option.some.inj hval
  have hcontent : ∀ place ∈ assign.places,
      s.content place = some (t.memory.cells (t.addr place)) := by
    intro place hplace
    obtain ⟨hcell, -, hcontent⟩ := hplaces place hplace
    rw [← hcontent, State.content_addr hcell]
  cases assign with
  | tableSet id tbl key val =>
    rw [Rewritten.prescribed, hcontent tbl (by simp [Rewritten.places]),
      hcontent key (by simp [Rewritten.places]), ← hobj]
    rfl
  | copied id tgt val =>
    obtain ⟨hcell, henv, -⟩ := hplaces tgt (by simp [Rewritten.places])
    have haddr : s.cell tgt = some (t.addr tgt) := by
      rw [← State.cell_addr hcell, State.cell, State.cell, henv]
    rw [Rewritten.prescribed, haddr, ← hobj]
    rfl
  | elided res val =>
    rw [Rewritten.prescribed, ← hobj]
    rfl

/-- A multiple assignment stores what Lua asks for exactly if no store reads a cell whose object an
earlier store of the statement has changed. -/
theorem assignList_stores_iff (m : Machine W) (hsets : m.TableSetKeepsCells)
    (tables values : ValueInfo) {n : ℕ} {varList vals : List (Value OpId)}
    {tail : Option (Value OpId)} {created : Op OpId} {rewritten : List Rewritten}
    (hrewrite : rewriteAssignList tables values (assignList n varList vals tail) =
      some (created, rewritten)) {s t s' : State W} {objs : List TObject}
    (hobjs : s.concat (assignList n varList vals tail).1 = some objs)
    (hvals : ∀ value ∈ vals, s.Allocated (createdIds created rewritten) value)
    (hplaces : ∀ assign ∈ rewritten, ∀ place ∈ assign.places,
      s.Allocated (createdIds created rewritten) place)
    (hsetup : m.execOp created s = some t)
    (hrun : m.execOps (rewritten.flatMap Rewritten.ops) t = some s') :
    luaAssigned s objs rewritten = some (m.assigned rewritten t s') ↔
      ReadsFirst t.memory.cells (storesAt t rewritten) := by
  obtain ⟨newVals, helide, hnew⟩ := rewriteAssignList_spec hrewrite
  obtain ⟨hlength, hcontent, hkeep⟩ :=
    setup_spec helide hobjs List.mem_cons_self hvals hsetup
  obtain ⟨hcreated, howners⟩ := owner_newVals helide
  have hval : ∀ i assign, rewritten[i]? = some assign →
      t.content assign.val = some (objs.getD i .nil) := by
    intro i assign hassign
    obtain ⟨val, hget, hreplaces⟩ := hnew hlength i assign hassign
    rw [hreplaces.1]
    exact hcontent i val hget
  have hids : ∀ assign ∈ rewritten, ∀ op ∈ assign.ops,
      op.id ∈ (rewritten.flatMap Rewritten.ops).map Op.id := by
    intro assign hassign op hop
    exact List.mem_map_of_mem (List.mem_flatMap.mpr ⟨assign, hassign, hop⟩)
  have hfresh : .new (.unpack n) 0 ∉ (rewritten.flatMap Rewritten.ops).map Op.id := by
    intro hmem
    obtain ⟨op, hop, heq⟩ := List.mem_map.mp hmem
    obtain ⟨assign, hassign, hmemOp⟩ := List.mem_flatMap.mp hop
    obtain ⟨i, hi⟩ := List.getElem?_of_mem hassign
    obtain ⟨val, -, hreplaces⟩ := hnew hlength i assign hi
    have hne := (hreplaces.2 op hmemOp).symm.trans heq
    simp [OpId.assign, OpId.unpack] at hne
  have hplace : ∀ assign ∈ rewritten, ∀ place ∈ assign.places,
      ∃ cell, t.env place = some (.ref cell) := by
    intro assign hassign place hmem
    have hallocated := hplaces assign hassign place hmem
    obtain ⟨cell, -, hcell⟩ := hallocated.2
    exact ⟨cell, (hkeep place hallocated).1.trans hcell⟩
  have hcells : ∀ assign ∈ rewritten, ∀ value ∈ assign.val :: assign.places,
      value.owner ∉ (rewritten.flatMap Rewritten.ops).map Op.id ∧
        ∃ cell, t.env value = some (.ref cell) := by
    intro assign hassign value hvalue
    rcases List.mem_cons.mp hvalue with heq | hmem
    · obtain ⟨i, hi⟩ := List.getElem?_of_mem hassign
      obtain ⟨val, hget, hreplaces⟩ := hnew hlength i assign hi
      obtain ⟨cell, hcell, -⟩ := Option.map_eq_some_iff.mp (hval i assign hi)
      refine ⟨?_, cell, heq ▸ t.cell_eq_some.mp hcell⟩
      rw [heq, hreplaces.1]
      rcases howners val (List.mem_of_getElem? hget) with hprogram | howner
      · exact fun hmem ↦ (hvals val hprogram).1 (.tail _ hmem)
      · rwa [howner]
    · refine ⟨fun howner ↦ ?_, hplace assign hassign value hmem⟩
      exact (hplaces assign hassign value hmem).1 (.tail _ howner)
  have hlua : luaAssigned s objs rewritten =
      some (atOnce (storesAt t rewritten) t.memory.cells) := by
    rw [luaAssigned, mapM_eq_some_iff_map, atOnce, storesAt, List.map_map, List.map_map]
    apply List.map_congr_left
    intro assign hassign
    have hget := getElem?_of_mem_inTurn hassign
    have hmem := List.mem_of_getElem? hget
    apply prescribed_eq_event (hval assign.2 assign.1 hget)
    intro place hmemPlace
    exact ⟨hplace assign.1 hmem place hmemPlace,
      hkeep place (hplaces assign.1 hmem place hmemPlace)⟩
  rw [hlua, assigned_eq_inOrder hsets hids hcells hrun, Option.some.injEq, eq_comm,
    inOrder_eq_atOnce_iff]

/-! ## An assignment to a variable and to an entry at that variable -/

/-- A table as the list of what has been stored in it. -/
def logTableSet : Op OpId → State (List (List TObject)) → Option (State (List (List TObject)))
  | .mk id .table_set _ operands _ _ [], s =>
    (operands.mapM s.content).map fun objs ↦
      { env := fun value ↦ if value.owner = id then none else s.env value
        memory := { s.memory with world := s.memory.world ++ [objs] } }
  | _, _ => none

section

variable {op : Op OpId} {s s' : State (List (List TObject))}

theorem logTableSet_eq_some (h : logTableSet op s = some s') :
    op.defs = [op.id] ∧
      (∀ value, s'.env value = if value.owner = op.id then none else s.env value) ∧
      ∃ world, s'.memory = { s.memory with world := world } := by
  unfold logTableSet at h
  split at h
  · obtain ⟨objs, -, hs'⟩ := Option.map_eq_some_iff.mp h
    rw [← hs']
    exact ⟨rfl, fun _ ↦ rfl, _, rfl⟩
  · cases h

theorem env_logTableSet (h : logTableSet op s = some s') (value : Value OpId)
    (howner : value.owner ∉ op.defs) : s'.env value = s.env value := by
  obtain ⟨hdefs, henv, -⟩ := logTableSet_eq_some h
  rw [hdefs, List.mem_singleton] at howner
  rw [henv, if_neg howner]

theorem ref_logTableSet (h : logTableSet op s = some s') (value : Value OpId)
    (howner : value.owner ∈ op.defs) (cell : ℕ) (hcell : s'.env value = some (.ref cell)) :
    cell ∈ s.reach [op] ∨ cell ∈ s.memory.escaped ∨ s.memory.nextCell ≤ cell := by
  obtain ⟨hdefs, henv, -⟩ := logTableSet_eq_some h
  rw [hdefs, List.mem_singleton] at howner
  rw [henv, if_pos howner] at hcell
  cases hcell

theorem memory_logTableSet (h : logTableSet op s = some s') :
    s.memory.Touches (s.reach [op]) s'.memory := by
  obtain ⟨-, -, world, hmemory⟩ := logTableSet_eq_some h
  rw [hmemory]
  exact ⟨le_rfl, fun _ _ _ _ ↦ rfl, fun _ _ _ hescaped ↦ hescaped⟩

theorem noCalls {memory memory' : Memory (List (List TObject))} {rets : List TObject}
    (h : (none : Option (List TObject × Memory (List (List TObject)))) = some (rets, memory')) :
    memory.Touches ∅ memory' := by
  cases h

end

def tableLog : Machine (List (List TObject)) where
  other := logTableSet
  call _ _ _ := none
  env_other := env_logTableSet
  ref_other := ref_logTableSet
  memory_other := memory_logTableSet
  memory_call := noCalls

theorem tableLog_keepsCells : tableLog.TableSetKeepsCells := by
  intro op s s' _ h
  obtain ⟨-, -, world, hmemory⟩ := logTableSet_eq_some h
  rw [hmemory]

theorem entryState_escaped_lt : ∀ cell ∈ (∅ : Set ℕ), cell < 4 := by
  simp

/-- The variables `i` and `a`, which are 3 and a table, and the values 4 and 20. -/
def entryState : State (List (List TObject)) where
  env
    | .res (.src op) 0 => if op < 4 then some (.ref op) else none
    | _ => none
  memory :=
    { cells := fun cell ↦
        if cell = 0 then .ofInt 3 else if cell = 1 then ⟨.tbl, 7⟩
        else if cell = 2 then .ofInt 4 else .ofInt 20
      nextCell := 4
      escaped := ∅
      world := []
      escaped_lt := entryState_escaped_lt }

/-- A function has captured `i`. -/
def entryValues : ValueInfo where
  definingOp
    | .res (.src 0) 0 => some (create (.src 0) .alloc [] 1)
    | .res (.src 4) 0 => some (create (.src 4) .table_get [.res (.src 1) 0, .res (.src 0) 0] 1)
    | .res (.src op) 0 => some (create (.src op) .number [] 1)
    | _ => none
  hasOneUse _ := true
  parentOp _ := .src 6
  isCaptured value := value == .res (.src 0) 0

theorem entry_allocated {ids : List OpId} (hids : ∀ id ∈ ids, id ≠ .src 0 ∧ id ≠ .src 1 ∧
    id ≠ .src 2 ∧ id ≠ .src 3) {op : ℕ} (hop : op < 4) :
    entryState.Allocated ids (.res (.src op) 0) := by
  have henv : entryState.env (.res (.src op) 0) = some (.ref op) := if_pos hop
  refine ⟨fun howner ↦ ?_, op, hop, henv⟩
  have hne := hids _ howner
  simp only [Value.owner, ne_eq, OpId.src.injEq] at hne
  omega

/-- The second store of `i, a[i] = i + 1, 20` reads the new value of `i`. -/
theorem assignList_stores_iff_entry :
    ∃ created rewritten t s', rewriteAssignList entryValues entryValues
        (assignList 5 [.res (.src 0) 0, .res (.src 4) 0] [.res (.src 2) 0, .res (.src 3) 0] none) =
          some (created, rewritten) ∧
      tableLog.execOp created entryState = some t ∧
      tableLog.execOps (rewritten.flatMap Rewritten.ops) t = some s' ∧
      luaAssigned entryState [.ofInt 4, .ofInt 20] rewritten ≠
        some (tableLog.assigned rewritten t s') := by
  have hrewrite : rewriteAssignList entryValues entryValues
      (assignList 5 [.res (.src 0) 0, .res (.src 4) 0] [.res (.src 2) 0, .res (.src 3) 0] none) =
        some (create (.new (.unpack 5) 0) .nil [] 1,
          [.copied (.new (.assign 5 0) 0) (.res (.src 0) 0) (.res (.src 2) 0),
            .tableSet (.new (.assign 5 1) 0) (.res (.src 1) 0) (.res (.src 0) 0)
              (.res (.src 3) 0)]) := rfl
  have hnil : tableLog.execOp (create (.new (.unpack 5) 0) .nil [] 1) entryState =
      some (entryState.alloca (.new (.unpack 5) 0) [.nil]) := rfl
  refine ⟨_, _, _, _, hrewrite, hnil, rfl, fun h ↦ ?_⟩
  have hids : ∀ id ∈ [OpId.new (.unpack 5) 0, .new (.assign 5 0) 0, .new (.assign 5 1) 0],
      id ≠ .src 0 ∧ id ≠ .src 1 ∧ id ≠ .src 2 ∧ id ≠ .src 3 := by
    decide
  have hallocated : ∀ op < 4, entryState.Allocated
      [OpId.new (.unpack 5) 0, .new (.assign 5 0) 0, .new (.assign 5 1) 0] (.res (.src op) 0) :=
    fun op hop ↦ entry_allocated hids hop
  have hreads := (assignList_stores_iff tableLog tableLog_keepsCells entryValues entryValues
    hrewrite rfl ?_ ?_ hnil rfl).mp h
  · have hkey := hreads [.copy 0 2] _ [] rfl 0 (by decide)
    exact absurd hkey (by decide)
  · intro value hvalue
    rcases List.mem_cons.mp hvalue with rfl | hvalue
    · exact hallocated 2 (by decide)
    · rw [List.mem_singleton.mp hvalue]
      exact hallocated 3 (by decide)
  · intro assign hassign place hplace
    rcases List.mem_cons.mp hassign with rfl | hassign
    · rw [List.mem_singleton.mp hplace]
      exact hallocated 0 (by decide)
    · rw [List.mem_singleton.mp hassign] at hplace
      rcases List.mem_cons.mp hplace with rfl | hplace
      · exact hallocated 1 (by decide)
      · rw [List.mem_singleton.mp hplace]
        exact hallocated 0 (by decide)

end DeclarativeMlir.Lua.Cells
