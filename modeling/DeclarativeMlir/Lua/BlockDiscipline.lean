import DeclarativeMlir.Lua.AstWalker

/-!
# The discipline of the block stack

What is generated for a statement or an expression stands behind the ops of the current block, and
the blocks that come with it are complete: an if chain, which leaves a block on the stack for each
of its links, closes them in the reverse order. The walk fails only on what is not implemented.
-/

namespace DeclarativeMlir.Lua.AstWalker

/-! ## Ops and blocks -/

/-- A block has one terminator, the last of its ops. -/
def Closed (ops : List GenOp) : Prop :=
  ∃ before last, ops = before ++ [last] ∧ last.isTerminator = true ∧
    ∀ op ∈ before, op.isTerminator = false

def Open (ops : List GenOp) : Prop := ∀ op ∈ ops, op.isTerminator = false

/-- The ops of a block that is still filled, or of one that is complete. -/
def Shape (closed : Bool) (ops : List GenOp) : Prop := if closed then Closed ops else Open ops

theorem Open.append {ops ops' : List GenOp} {closed : Bool} (h : Open ops)
    (h' : Shape closed ops') : Shape closed (ops ++ ops') := by
  cases closed with
  | false =>
    intro op hop
    rcases List.mem_append.mp hop with hop | hop
    · exact h op hop
    · exact h' op hop
  | true =>
    obtain ⟨before, last, rfl, hlast, hbefore⟩ := h'
    refine ⟨ops ++ before, last, (List.append_assoc ..).symm, hlast, fun op hop ↦ ?_⟩
    rcases List.mem_append.mp hop with hop | hop
    · exact h op hop
    · exact hbefore op hop

/-- The ops are in the order of their creation, between two moments of the walk. -/
def Ordered (start stop : ℕ) (ops : List GenOp) : Prop :=
  ops.Pairwise (fun op op' ↦ op.id < op'.id) ∧ ∀ op ∈ ops, start ≤ op.id ∧ op.id < stop

theorem Ordered.nil (n : ℕ) : Ordered n n [] := ⟨.nil, by simp⟩

theorem Ordered.append {start middle stop : ℕ} {ops ops' : List GenOp}
    (h : Ordered start middle ops) (h' : Ordered middle stop ops') (hstart : start ≤ middle)
    (hstop : middle ≤ stop) : Ordered start stop (ops ++ ops') := by
  constructor
  · refine List.pairwise_append.mpr ⟨h.1, h'.1, fun op hop op' hop' ↦ ?_⟩
    exact (h.2 op hop).2.trans_le (h'.2 op' hop').1
  · intro op hop
    rcases List.mem_append.mp hop with hop | hop
    · exact ⟨(h.2 op hop).1, (h.2 op hop).2.trans_le hstop⟩
    · exact ⟨hstart.trans (h'.2 op hop).1, (h'.2 op hop).2⟩

/-- A complete block, filled between two moments of the walk. -/
structure Complete (start stop : ℕ) (block : GenBlock) : Prop where
  closed : Closed block.ops
  ordered : Ordered start stop block.ops

theorem Complete.mono {start stop start' stop' : ℕ} {block : GenBlock}
    (h : Complete start stop block) (hstart : start' ≤ start) (hstop : stop ≤ stop') :
    Complete start' stop' block :=
  ⟨h.closed, h.ordered.1, fun op hop ↦
    ⟨hstart.trans (h.ordered.2 op hop).1, (h.ordered.2 op hop).2.trans_le hstop⟩⟩

/-! ## Runs of the walk -/

def GenBlock.append (ops : List GenOp) (block : GenBlock) : GenBlock :=
  { block with ops := block.ops ++ ops }

@[simp]
theorem GenBlock.append_nil (block : GenBlock) : block.append [] = block := by
  simp [GenBlock.append]

theorem GenBlock.append_append (ops ops' : List GenOp) (block : GenBlock) :
    (block.append ops).append ops' = block.append (ops ++ ops') := by
  simp [GenBlock.append]

theorem modify_append_of_lt {α : Type} (f : α → α) {l : List α} (l' : List α) {i : ℕ}
    (hi : i < l.length) : (l ++ l').modify i f = l.modify i f ++ l' := by
  apply List.ext_getElem?
  intro j
  rw [List.getElem?_modify]
  by_cases hj : j < l.length
  · rw [List.getElem?_append_left hj, List.getElem?_append_left (by rwa [List.length_modify]),
      List.getElem?_modify]
  · have hle : l.length ≤ j := Nat.le_of_not_lt hj
    have hne : i ≠ j := by omega
    rw [List.getElem?_append_right hle, List.getElem?_append_right (by rwa [List.length_modify]),
      List.length_modify]
    simp only [if_neg hne]
    exact Option.map_id'

theorem modify_concat {α : Type} (f : α → α) (l : List α) (a : α) :
    (l ++ [a]).modify l.length f = l ++ [f a] := by
  apply List.ext_getElem?
  intro j
  rw [List.getElem?_modify]
  rcases Nat.lt_trichotomy j l.length with hj | rfl | hj
  · rw [List.getElem?_append_left hj, List.getElem?_append_left hj]
    simp only [if_neg (Nat.ne_of_gt hj)]
    exact Option.map_id'
  · simp
  · rw [List.getElem?_eq_none (by simp; omega), List.getElem?_eq_none (by simp; omega)]
    rfl

/-- The builder is at the end of the current block. -/
structure AtEnd (st : State) (cur : ℕ) : Prop where
  curBlock : st.curBlock = some cur
  insertion : st.insertion = some ⟨cur, 0⟩
  bound : cur < st.blocks.length

/-- `ops` have come behind those of the current block, and complete `blocks` behind the others. -/
structure Extends (st st' : State) (cur : ℕ) (ops : List GenOp) (blocks : List GenBlock) :
    Prop where
  blocks_eq : st'.blocks = st.blocks.modify cur (GenBlock.append ops) ++ blocks
  blockStack : st'.blockStack = st.blockStack
  curBlock : st'.curBlock = st.curBlock
  insertion : st'.insertion = st.insertion
  nextOp : st.nextOp ≤ st'.nextOp
  ordered : Ordered st.nextOp st'.nextOp ops
  complete : ∀ block ∈ blocks, Complete st.nextOp st'.nextOp block

theorem Extends.refl (st : State) (cur : ℕ) : Extends st st cur [] [] where
  blocks_eq := by
    have hid : GenBlock.append [] = id := funext GenBlock.append_nil
    rw [hid, List.modify_id, List.append_nil]
  blockStack := rfl
  curBlock := rfl
  insertion := rfl
  nextOp := le_rfl
  ordered := .nil _
  complete := by simp

theorem Extends.atEnd {st st' : State} {cur : ℕ} {ops : List GenOp} {blocks : List GenBlock}
    (h : Extends st st' cur ops blocks) (hend : AtEnd st cur) : AtEnd st' cur where
  curBlock := h.curBlock.trans hend.curBlock
  insertion := h.insertion.trans hend.insertion
  bound := by
    rw [h.blocks_eq, List.length_append, List.length_modify]
    exact Nat.lt_add_right _ hend.bound

theorem Extends.trans {st st' st'' : State} {cur : ℕ} {ops ops' : List GenOp}
    {blocks blocks' : List GenBlock} (h : Extends st st' cur ops blocks)
    (h' : Extends st' st'' cur ops' blocks') (hbound : cur < st.blocks.length) :
    Extends st st'' cur (ops ++ ops') (blocks ++ blocks') where
  blocks_eq := by
    have hlength : cur < (st.blocks.modify cur (GenBlock.append ops)).length := by
      rwa [List.length_modify]
    have happend : GenBlock.append ops' ∘ GenBlock.append ops = GenBlock.append (ops ++ ops') :=
      funext fun block ↦ block.append_append ops ops'
    rw [h'.blocks_eq, h.blocks_eq, modify_append_of_lt _ _ hlength, List.modify_modify_eq, happend,
      List.append_assoc]
  blockStack := h'.blockStack.trans h.blockStack
  curBlock := h'.curBlock.trans h.curBlock
  insertion := h'.insertion.trans h.insertion
  nextOp := h.nextOp.trans h'.nextOp
  ordered := h.ordered.append h'.ordered h.nextOp h'.nextOp
  complete := by
    intro block hblock
    rcases List.mem_append.mp hblock with hblock | hblock
    · exact (h.complete block hblock).mono le_rfl h'.nextOp
    · exact (h'.complete block hblock).mono h.nextOp le_rfl

/-- What has been generated since `st` is of this shape; a walk fails only on what is not
implemented. -/
def Ends {α : Type} (shape : List GenOp → Prop) (st : State) (cur : ℕ) :
    Except Failure (α × State) → Prop
  | .error failure => ∃ message, failure = .unsupported message
  | .ok (_, st') => ∃ ops blocks, Extends st st' cur ops blocks ∧ shape ops

def EmitsOf {α : Type} (shape : List GenOp → Prop) (p : Gen α) : Prop :=
  ∀ st cur, AtEnd st cur → Ends shape st cur (p.run st)

def Emits {α : Type} (closed : Bool) (p : Gen α) : Prop := EmitsOf (Shape closed) p

section Emits

variable {α β : Type} {closed : Bool}

theorem emits_pure (a : α) : Emits false (pure a : Gen α) :=
  fun st cur _ ↦ ⟨[], [], .refl st cur, by simp [Shape, Open]⟩

theorem emits_unsupported (message : String) :
    Emits closed (throw (.unsupported message) : Gen α) :=
  fun _ _ _ ↦ ⟨message, rfl⟩

theorem EmitsOf.bind {shape shape' shape'' : List GenOp → Prop} {p : Gen α} {f : α → Gen β}
    (hp : EmitsOf shape p) (hf : ∀ a, EmitsOf shape' (f a))
    (happend : ∀ ops ops', shape ops → shape' ops' → shape'' (ops ++ ops')) :
    EmitsOf shape'' (p >>= f) := by
  intro st cur hend
  have hrun := hp st cur hend
  rw [StateT.run_bind]
  cases h : p.run st with
  | error failure =>
    rw [h] at hrun
    exact hrun
  | ok result =>
    obtain ⟨a, st'⟩ := result
    rw [h] at hrun
    obtain ⟨ops, blocks, hextends, hshape⟩ := hrun
    have hrest := hf a st' cur (hextends.atEnd hend)
    change Ends shape'' st cur ((f a).run st')
    cases h' : (f a).run st' with
    | error failure =>
      rw [h'] at hrest
      exact hrest
    | ok result =>
      rw [h'] at hrest
      obtain ⟨ops', blocks', hextends', hshape'⟩ := hrest
      exact ⟨ops ++ ops', blocks ++ blocks', hextends.trans hextends' hend.bound,
        happend ops ops' hshape hshape'⟩

theorem Emits.bind {p : Gen α} {f : α → Gen β} (hp : Emits false p)
    (hf : ∀ a, Emits closed (f a)) : Emits closed (p >>= f) :=
  EmitsOf.bind hp hf fun _ _ ↦ Open.append

/-- An op that is created comes behind the others. -/
theorem create_run {st : State} {cur : ℕ} (hend : AtEnd st cur) (name : OpName) (attr : Attr)
    (operands : List Val) (numResults : ℕ) :
    ∃ st', (create name attr operands numResults).run st = .ok (st.nextOp, st') ∧
      Extends st st' cur [⟨st.nextOp, name, attr, operands, numResults⟩] [] := by
  let op : GenOp := ⟨st.nextOp, name, attr, operands, numResults⟩
  refine ⟨{ st with
    blocks := st.blocks.modify cur (GenBlock.insert 0 op)
    nextOp := st.nextOp + 1 }, by simp only [create, StateT.run, hend.insertion, op], ?_⟩
  constructor
  · have hinsert : GenBlock.insert 0 op = GenBlock.append [op] := by
      funext block
      simp [GenBlock.insert, GenBlock.append]
    rw [hinsert, List.append_nil]
  · rfl
  · rfl
  · rfl
  · exact Nat.le_succ _
  · exact ⟨by simp, by simp⟩
  · simp

theorem emits_create {name : OpName} (hname : name ∉ [OpName.until, .end, .ret, .cond])
    (attr : Attr) (operands : List Val) (numResults : ℕ) :
    Emits false (create name attr operands numResults) := by
  intro st cur hend
  obtain ⟨st', hrun, hextends⟩ := create_run hend name attr operands numResults
  rw [hrun]
  refine ⟨_, _, hextends, ?_⟩
  simpa [Shape, Open, GenOp.isTerminator] using hname

theorem emits_terminator {name : OpName} (hname : name ∈ [OpName.until, .end, .ret, .cond])
    (attr : Attr) (operands : List Val) (numResults : ℕ) :
    Emits true (create name attr operands numResults) := by
  intro st cur hend
  obtain ⟨st', hrun, hextends⟩ := create_run hend name attr operands numResults
  rw [hrun]
  exact ⟨_, _, hextends, [], _, rfl, by simpa [GenOp.isTerminator] using hname, by simp⟩

/-- Nothing comes behind a terminator. -/
theorem Emits.andThen {p : Gen α} {f : α → Gen β} (hp : Emits closed p)
    (hf : ∀ a, EmitsOf (· = []) (f a)) : Emits closed (p >>= f) :=
  EmitsOf.bind hp hf fun ops ops' hshape hnil ↦ by rwa [hnil, List.append_nil]

theorem emitsOf_pure (a : α) : EmitsOf (· = []) (pure a : Gen α) :=
  fun st cur _ ↦ ⟨[], [], .refl st cur, rfl⟩

theorem Emits.map {p : Gen α} (hp : Emits closed p) (b : β) :
    Emits closed (p >>= fun _ ↦ pure b) := hp.andThen fun _ ↦ emitsOf_pure b

theorem pushEntryBlock_run (st : State) (op region numArgs : ℕ) :
    (addEntryBlock op region numArgs >>= pushBlock).run st = .ok ((), { st with
      blocks := st.blocks ++ [⟨op, region, numArgs, []⟩]
      blockStack := st.curBlock :: st.blockStack
      curBlock := some st.blocks.length
      insertion := some ⟨st.blocks.length, 0⟩ }) := by
  have hget : (st.blocks ++ [⟨op, region, numArgs, []⟩])[st.blocks.length]? =
      some (⟨op, region, numArgs, []⟩ : GenBlock) := by simp
  change Except.ok ((), State.mk _ _ _ (some ⟨_, Option.getD (Option.map _ _) 0⟩) _) = _
  rw [hget]
  rfl

theorem popBlock_run {st : State} {cur : ℕ} {blockStack : List (Option ℕ)}
    (h : st.blockStack = some cur :: blockStack) :
    popBlock.run st = .ok ((), { st with
      blockStack := blockStack
      curBlock := some cur
      insertion := some ⟨cur, 0⟩ }) := by
  unfold popBlock
  rw [StateT.run_bind, StateT.run_get]
  simp only [pure_bind, h]
  rfl

/-- A block is filled and popped. -/
theorem emitsOf_pushed {p : Gen α} (hp : Emits true p) (op region numArgs : ℕ) :
    EmitsOf (· = []) (addEntryBlock op region numArgs >>= pushBlock >>= fun _ ↦ p >>= fun _ ↦
      popBlock) := by
  intro st cur hend
  let st₁ : State := { st with
    blocks := st.blocks ++ [⟨op, region, numArgs, []⟩]
    blockStack := st.curBlock :: st.blockStack
    curBlock := some st.blocks.length
    insertion := some ⟨st.blocks.length, 0⟩ }
  have hend₁ : AtEnd st₁ st.blocks.length := ⟨rfl, rfl, by simp [st₁]⟩
  have hrun := hp st₁ st.blocks.length hend₁
  rw [StateT.run_bind, pushEntryBlock_run]
  change Ends (· = []) st cur ((p >>= fun _ ↦ popBlock).run st₁)
  rw [StateT.run_bind]
  cases h : p.run st₁ with
  | error failure =>
    rw [h] at hrun
    exact hrun
  | ok result =>
    obtain ⟨a, st₂⟩ := result
    rw [h] at hrun
    obtain ⟨ops, blocks, hextends, hclosed⟩ := hrun
    have hstack : st₂.blockStack = some cur :: st.blockStack := by
      rw [hextends.blockStack]
      exact congrArg (· :: st.blockStack) hend.curBlock
    change Ends (· = []) st cur (popBlock.run st₂)
    rw [popBlock_run hstack]
    refine ⟨[], ⟨op, region, numArgs, ops⟩ :: blocks, ?_, rfl⟩
    have hid : GenBlock.append [] = id := funext GenBlock.append_nil
    constructor
    · change st₂.blocks = _
      rw [hextends.blocks_eq, hid, List.modify_id, modify_concat, List.append_assoc]
      rfl
    · rfl
    · exact hend.curBlock.symm
    · exact hend.insertion.symm
    · exact hextends.nextOp
    · exact ⟨.nil, by simp⟩
    · intro block hblock
      rcases List.mem_cons.mp hblock with rfl | hblock
      · exact ⟨hclosed, hextends.ordered⟩
      · exact hextends.complete block hblock

theorem emits_pushed {p : Gen α} (hp : Emits true p) (op region numArgs : ℕ) :
    Emits false (addEntryBlock op region numArgs >>= pushBlock >>= fun _ ↦ p >>= fun _ ↦
      popBlock) := by
  have hpushed := (emits_pure ()).andThen fun _ ↦ emitsOf_pushed hp op region numArgs
  simpa only [pure_bind] using hpushed

/-- A block is filled and popped, and the walk goes on behind the op that it belongs to. -/
theorem Emits.inBlock {p : Gen α} {rest : Unit → Gen β} (hp : Emits true p)
    (hrest : ∀ u, Emits closed (rest u)) (op region numArgs : ℕ) :
    Emits closed (addEntryBlock op region numArgs >>= fun block ↦
      pushBlock block >>= fun _ ↦ p >>= fun _ ↦ popBlock >>= rest) := by
  have hblock := (emits_pushed hp op region numArgs).bind hrest
  simpa only [bind_assoc] using hblock

end Emits

/-! ## Every visitor keeps the discipline -/

section Visitors

theorem emits_handleBool (val : ℤ) : Emits false (handleBool val) :=
  (emits_create (by decide) _ _ _).bind fun _ ↦ emits_pure _

theorem emits_literal (value : Literal) : Emits false (literal value) := by
  cases value with
  | nilvalue => exact (emits_create (by decide) _ _ _).bind fun _ ↦ emits_pure _
  | falsevalue => exact emits_handleBool 0
  | truevalue => exact emits_handleBool 1
  | number value => exact (emits_create (by decide) _ _ _).bind fun _ ↦ emits_pure _
  | string text => exact (emits_create (by decide) _ _ _).bind fun _ ↦ emits_pure _

theorem emits_assignAll (unpack i : ℕ) (varList : List Val) :
    Emits false (assignAll unpack i varList) := by
  induction varList generalizing i with
  | nil => exact emits_pure _
  | cons tgt varList ih => exact (emits_create (by decide) _ _ _).bind fun _ ↦ ih (i + 1)

theorem emits_allocLocals (namelist : List String) : Emits false (allocLocals namelist) := by
  induction namelist with
  | nil => exact emits_pure _
  | cons name namelist ih =>
    exact (emits_create (by decide) _ _ _).bind fun _ ↦ ih.bind fun _ ↦ emits_pure _

theorem emits_assertNoRetstat (block : Block) (message : String) :
    Emits false (assertNoRetstat block message) := by
  unfold assertNoRetstat
  split
  · exact emits_unsupported message
  · exact emits_pure _

def closeElseif : Gen Unit := do
  popBlock
  let _ ← create .end .none [] 0

/-- Every link of a chain is closed like the others. -/
theorem closeElseifs_cons (elseif : CondBlock) (elseifs : List CondBlock) :
    closeElseifs (elseif :: elseifs) = closeElseifs elseifs >>= fun _ ↦ closeElseif := by
  have hdef : ∀ (elseif : CondBlock) (elseifs : List CondBlock),
      closeElseifs (elseif :: elseifs) = closeElseif >>= fun _ ↦ closeElseifs elseifs := by
    intro elseif elseifs
    simp [closeElseifs, closeElseif]
  induction elseifs generalizing elseif with
  | nil => simp [closeElseifs, closeElseif]
  | cons elseif' elseifs ih =>
    calc
      closeElseifs (elseif :: elseif' :: elseifs) =
          closeElseif >>= fun _ ↦ closeElseifs (elseif' :: elseifs) := hdef _ _
      _ = closeElseif >>= fun _ ↦ closeElseifs elseifs >>= fun _ ↦ closeElseif := by
        rw [ih elseif']
      _ = (closeElseif >>= fun _ ↦ closeElseifs elseifs) >>= fun _ ↦ closeElseif := by
        rw [bind_assoc]
      _ = closeElseifs (elseif' :: elseifs) >>= fun _ ↦ closeElseif := by
        rw [← hdef elseif' elseifs]

section Parts

variable {exps : List Exp} {stats : List Stat} {retstat : Option (List Exp)} {cond : Exp}

theorem emits_explist (hvals : Emits false (vals exps)) : Emits false (explist exps) := by
  rw [explist]
  apply hvals.bind
  intro vals
  exact (emits_create (by decide) _ _ _).bind fun _ ↦ emits_pure _

theorem emits_tableconstructor {fieldlist : List Field}
    (hfields : ∀ tbl, Emits false (fields tbl 1 fieldlist)) :
    Emits false (tableconstructor fieldlist) := by
  rw [tableconstructor]
  apply (emits_create (by decide) _ _ _).bind
  intro tbl
  exact (hfields tbl).bind fun _ ↦ emits_pure _

theorem emits_handleAssignList (hvals : Emits false (vals exps)) (varList : List Val) :
    Emits false (handleAssignList varList exps) := by
  rw [handleAssignList]
  apply (emits_explist hvals).bind
  intro expPack
  exact (emits_create (by decide) _ _ _).bind fun unpack ↦ emits_assignAll unpack 0 varList

theorem emits_cond (hcond : Emits false (exp cond false)) :
    Emits true (exp cond false >>= fun cond ↦ create .cond .none [cond] 0) :=
  hcond.bind fun _ ↦ emits_terminator (by decide) _ _ _

/-- The body of a loop. -/
theorem emits_body {body : Block} (hbody : Emits false (block body)) (message : String) :
    Emits true (block body >>= fun _ ↦ assertNoRetstat body message >>= fun _ ↦
      create .end .none [] 0) :=
  hbody.bind fun _ ↦ (emits_assertNoRetstat body message).bind fun _ ↦
    emits_terminator (by decide) _ _ _

/-- An `ifblock` leaves the second block of its op on the stack, which `p` completes. -/
def Link (ctx : CondBlock) : Prop :=
  ∀ p : Gen Unit, Emits true p → Emits false (ifblock ctx >>= fun _ ↦ p >>= fun _ ↦ popBlock)

theorem link_of_emits (hcond : Emits false (exp cond false))
    (hstats : Emits false (statlist stats)) (hretstat : Emits true (handleCondRetstat retstat)) :
    Link (.mk cond (.mk stats retstat)) := by
  intro p hp
  rw [ifblock]
  have hfirst : Emits true (statlist stats >>= fun _ ↦ handleCondRetstat retstat) :=
    hstats.bind fun _ ↦ hretstat
  have hchain : Emits false (exp cond false >>= fun cond ↦
      create .cond_if .none [cond] 0 >>= fun cond_if ↦
        addEntryBlock cond_if 0 0 >>= fun entry ↦ pushBlock entry >>= fun _ ↦
          (statlist stats >>= fun _ ↦ handleCondRetstat retstat) >>= fun _ ↦ popBlock >>= fun _ ↦
            addEntryBlock cond_if 1 0 >>= pushBlock >>= fun _ ↦ p >>= fun _ ↦ popBlock) := by
    apply hcond.bind
    intro cond
    apply (emits_create (by decide) _ _ _).bind
    intro cond_if
    exact hfirst.inBlock (fun _ ↦ emits_pushed hp cond_if 1 0) cond_if 0 0
  simpa only [bind_assoc] using hchain

/-- The rest of a chain completes the block that the link in front of it has left. -/
theorem emits_elseifs {elseifs : List CondBlock} {otherwise : Option Block}
    (hlinks : ∀ ctx ∈ elseifs, Link ctx) (helse : Emits true (elseblock otherwise)) :
    Emits true (ifblocks elseifs >>= fun _ ↦ elseblock otherwise >>= fun _ ↦
      closeElseifs elseifs) := by
  induction elseifs with
  | nil =>
    rw [ifblocks, closeElseifs, pure_bind]
    exact helse.map _
  | cons elseif elseifs ih =>
    obtain ⟨hlink, hlinks⟩ := List.forall_mem_cons.mp hlinks
    rw [ifblocks, closeElseifs_cons]
    have hclosed : Emits true ((ifblock elseif >>= fun _ ↦
        (ifblocks elseifs >>= fun _ ↦ elseblock otherwise >>= fun _ ↦ closeElseifs elseifs) >>=
          fun _ ↦ popBlock) >>= fun _ ↦ create .end .none [] 0 >>= fun _ ↦ pure ()) :=
      (hlink _ (ih hlinks)).bind fun _ ↦ (emits_terminator (by decide) _ _ _).map _
    simpa only [bind_assoc, closeElseif] using hclosed

end Parts

mutual

theorem emits_varOrExp (ctx : VarOrExp) : Emits false (varOrExp ctx) := by
  cases ctx with
  | var ctx =>
    rw [varOrExp]
    exact emits_var ctx
  | exp ctx =>
    rw [varOrExp]
    exact emits_exp ctx false

theorem emits_var (ctx : Var) : Emits false (var ctx) := by
  obtain ⟨name, suffixes⟩ := ctx
  rw [var]
  exact (emits_create (by decide) _ _ _).bind fun val ↦ emits_varSuffixes (res val) suffixes

theorem emits_varSuffixes (val : Val) (suffixes : List VarSuffix) :
    Emits false (varSuffixes val suffixes) := by
  cases suffixes with
  | nil =>
    rw [varSuffixes]
    exact emits_pure val
  | cons suffix suffixes =>
    cases suffix with
    | exp allArgs key =>
      rw [varSuffixes]
      apply (emits_handleFunctionLike val allArgs true).bind
      intro val
      apply (emits_exp key false).bind
      intro key
      exact (emits_create (by decide) _ _ _).bind fun get ↦ emits_varSuffixes (res get) suffixes
    | name allArgs name =>
      rw [varSuffixes]
      apply (emits_handleFunctionLike val allArgs true).bind
      intro val
      apply (emits_create (by decide) _ _ _).bind
      intro key
      exact (emits_create (by decide) _ _ _).bind fun get ↦ emits_varSuffixes (res get) suffixes

theorem emits_handleFunctionLike (val : Val) (allArgs : List Args) (unpackLast : Bool) :
    Emits false (handleFunctionLike val allArgs unpackLast) := by
  cases allArgs with
  | nil =>
    rw [handleFunctionLike]
    exact emits_pure val
  | cons args allArgs =>
    rw [handleFunctionLike]
    apply (emits_nameAndArgs args).bind
    intro args
    apply (emits_create (by decide) _ _ _).bind
    intro call
    split
    · exact emits_pure _
    · exact (emits_create (by decide) _ _ _).bind fun unpack ↦
        emits_handleFunctionLike (res unpack) allArgs unpackLast

theorem emits_nameAndArgs (args : Args) : Emits false (nameAndArgs args) := by
  cases args with
  | explist exps =>
    rw [nameAndArgs]
    exact emits_explist (emits_vals exps)
  | tableconstructor fieldlist =>
    rw [nameAndArgs]
    apply (emits_tableconstructor fun tbl ↦ emits_fields tbl 1 fieldlist).bind
    intro tbl
    exact (emits_create (by decide) _ _ _).bind fun _ ↦ emits_pure _
  | string text =>
    rw [nameAndArgs]
    apply (emits_literal (.string text)).bind
    intro val
    exact (emits_create (by decide) _ _ _).bind fun _ ↦ emits_pure _

theorem emits_exp (ctx : Exp) (allowPack : Bool) : Emits false (exp ctx allowPack) := by
  cases ctx with
  | literal value =>
    rw [exp]
    exact emits_literal value
  | unsupported message =>
    rw [exp]
    exact emits_unsupported message
  | functiondef body =>
    rw [exp]
    exact emits_functiondef body
  | prefixexp head allArgs =>
    rw [exp]
    exact (emits_varOrExp head).bind fun val ↦ emits_handleFunctionLike val allArgs _
  | tableconstructor fieldlist =>
    rw [exp]
    exact emits_tableconstructor fun tbl ↦ emits_fields tbl 1 fieldlist
  | unary op val =>
    rw [exp]
    apply (emits_exp val false).bind
    intro val
    exact (emits_create (by decide) _ _ _).bind fun _ ↦ emits_pure _
  | binary op lhs rhs =>
    rw [exp]
    apply (emits_exp lhs false).bind
    intro lhs
    apply (emits_exp rhs false).bind
    intro rhs
    exact (emits_create (by decide) _ _ _).bind fun _ ↦ emits_pure _

theorem emits_vals (exps : List Exp) : Emits false (vals exps) := by
  cases exps with
  | nil =>
    rw [vals]
    exact emits_pure []
  | cons e es =>
    rw [vals]
    exact (emits_exp e es.isEmpty).bind fun val ↦ (emits_vals es).bind fun rest ↦ emits_pure _

theorem emits_fields (tbl idx : ℕ) (fieldlist : List Field) :
    Emits false (fields tbl idx fieldlist) := by
  cases fieldlist with
  | nil =>
    rw [fields]
    exact emits_pure _
  | cons field rest =>
    cases field with
    | keyed key val =>
      rw [fields]
      apply (emits_exp key false).bind
      intro key
      apply (emits_exp val false).bind
      intro val
      exact (emits_create (by decide) _ _ _).bind fun _ ↦ emits_fields tbl idx rest
    | named name val =>
      rw [fields]
      apply (emits_create (by decide) _ _ _).bind
      intro key
      apply (emits_exp val false).bind
      intro val
      exact (emits_create (by decide) _ _ _).bind fun _ ↦ emits_fields tbl idx rest
    | positional val =>
      rw [fields]
      apply (emits_create (by decide) _ _ _).bind
      intro key
      apply (emits_exp val false).bind
      intro val
      exact (emits_create (by decide) _ _ _).bind fun _ ↦ emits_fields tbl (idx + 1) rest

theorem emits_functiondef (body : Funcbody) : Emits false (functiondef body) := by
  obtain ⟨params, stats, retstat⟩ := body
  rw [functiondef]
  apply (emits_create (by decide) _ _ _).bind
  intro fcnDef
  have hbody : Emits true (statlist stats >>= fun _ ↦ handleRetStat retstat) :=
    (emits_statlist stats).bind fun _ ↦ emits_handleRetStat retstat
  have hblock := hbody.inBlock (fun _ ↦ emits_pure (res fcnDef)) fcnDef 0 params.length
  simpa only [bind_assoc] using hblock

theorem emits_handleRetStat (retstat : Option (List Exp)) : Emits true (handleRetStat retstat) := by
  cases retstat with
  | none =>
    rw [handleRetStat]
    exact (emits_terminator (by decide) _ _ _).map _
  | some exps =>
    rw [handleRetStat]
    apply (emits_vals exps).bind
    intro vals
    exact (emits_terminator (by decide) _ _ _).map _

theorem emits_handleCondRetstat (retstat : Option (List Exp)) :
    Emits true (handleCondRetstat retstat) := by
  cases retstat with
  | none =>
    rw [handleCondRetstat]
    exact (emits_terminator (by decide) _ _ _).map _
  | some exps =>
    rw [handleCondRetstat]
    apply (emits_vals exps).bind
    intro vals
    exact (emits_terminator (by decide) _ _ _).map _

theorem emits_block (ctx : Block) : Emits false (block ctx) := by
  obtain ⟨stats, retstat⟩ := ctx
  rw [block]
  exact emits_statlist stats

theorem emits_statlist (stats : List Stat) : Emits false (statlist stats) := by
  cases stats with
  | nil =>
    rw [statlist]
    exact emits_pure _
  | cons s stats =>
    rw [statlist]
    exact (emits_stat s).bind fun _ ↦ emits_statlist stats

theorem emits_varlist (vars : List Var) : Emits false (varlist vars) := by
  cases vars with
  | nil =>
    rw [varlist]
    exact emits_pure _
  | cons v vars =>
    rw [varlist]
    exact (emits_var v).bind fun _ ↦ (emits_varlist vars).bind fun _ ↦ emits_pure _

theorem emits_step (ctx : Option Exp) : Emits false (step ctx) := by
  cases ctx with
  | none =>
    rw [step]
    exact (emits_create (by decide) _ _ _).bind fun _ ↦ emits_pure _
  | some e =>
    rw [step]
    exact emits_exp e false

theorem emits_elseblock (otherwise : Option Block) : Emits true (elseblock otherwise) := by
  cases otherwise with
  | none =>
    rw [elseblock]
    exact (emits_terminator (by decide) _ _ _).map _
  | some ctx =>
    obtain ⟨stats, retstat⟩ := ctx
    rw [elseblock]
    exact (emits_statlist stats).bind fun _ ↦ emits_handleCondRetstat retstat

theorem links (ctx : CondBlock) : Link ctx := by
  obtain ⟨cond, stats, retstat⟩ := ctx
  exact link_of_emits (emits_exp cond false) (emits_statlist stats)
    (emits_handleCondRetstat retstat)

theorem links_all (ctxs : List CondBlock) : ∀ ctx ∈ ctxs, Link ctx := by
  cases ctxs with
  | nil => simp
  | cons ctx ctxs => exact List.forall_mem_cons.mpr ⟨links ctx, links_all ctxs⟩

theorem emits_stat (s : Stat) : Emits false (stat s) := by
  cases s with
  | semicolon =>
    rw [stat]
    exact emits_pure _
  | unsupported message =>
    rw [stat]
    exact emits_unsupported message
  | assignlist vars exps =>
    rw [stat]
    exact (emits_varlist vars).bind fun varList ↦ emits_handleAssignList (emits_vals exps) varList
  | functioncall head allArgs =>
    rw [stat]
    apply (emits_varOrExp head).bind
    intro val
    exact (emits_handleFunctionLike val allArgs false).bind fun _ ↦ emits_pure _
  | whileloop cond body =>
    rw [stat]
    have hloop : ∀ loop, Emits false (addEntryBlock loop 0 0 >>= fun entry ↦
        pushBlock entry >>= fun _ ↦ (exp cond false >>= fun cond ↦ create .cond .none [cond] 0) >>=
          fun _ ↦ popBlock >>= fun _ ↦ addEntryBlock loop 1 0 >>= pushBlock >>= fun _ ↦
            (block body >>= fun _ ↦ assertNoRetstat body "unexpected terminator in while" >>=
              fun _ ↦ create .end .none [] 0) >>= fun _ ↦ popBlock) := fun loop ↦
      (emits_cond (emits_exp cond false)).inBlock (fun _ ↦ emits_pushed (emits_body (emits_block body) _) loop 1 0) loop 0 0
    have hwhile := (emits_create (show OpName.loop_while ∉ _ by decide) .none [] 0).bind hloop
    simpa only [bind_assoc] using hwhile
  | repeatloop body cond =>
    rw [stat]
    have hbody : Emits true (block body >>= fun _ ↦
        assertNoRetstat body "unexpected terminator in repeat" >>= fun _ ↦
          create .until .none [] 0 >>= fun until_op ↦ addEntryBlock until_op 0 0 >>= pushBlock >>=
            fun _ ↦ (exp cond false >>= fun cond ↦ create .cond .none [cond] 0) >>= fun _ ↦
              popBlock) :=
      (emits_block body).bind fun _ ↦ (emits_assertNoRetstat body _).bind fun _ ↦
        (emits_terminator (by decide) _ _ _).andThen fun until_op ↦
          emitsOf_pushed (emits_cond (emits_exp cond false)) until_op 0 0
    have hloop := (emits_create (show OpName.repeat ∉ _ by decide) .none [] 0).bind fun loop ↦
      emits_pushed hbody loop 0 0
    simpa only [bind_assoc] using hloop
  | conditionalchain cond elseifs otherwise =>
    rw [stat]
    have hchain := links cond _ (emits_elseifs (links_all elseifs) (emits_elseblock otherwise))
    simpa only [bind_assoc] using hchain
  | numericfor name lower upper step_exp body =>
    rw [stat]
    apply (emits_exp lower false).bind
    intro lower
    apply (emits_exp upper false).bind
    intro upper
    apply (emits_step step_exp).bind
    intro step
    apply (emits_create (by decide) _ _ _).bind
    intro loop
    have hblock := emits_pushed (emits_body (emits_block body) "unsupported return statement") loop 0 1
    simpa only [bind_assoc] using hblock
  | genericfor params exps body =>
    rw [stat]
    apply (emits_explist (emits_vals exps)).bind
    intro expPack
    apply (emits_create (by decide) _ _ _).bind
    intro unpack
    apply (emits_create (by decide) _ _ _).bind
    intro loop
    have hblock := emits_pushed (emits_body (emits_block body) "unexpected terminator statement") loop 0
      params.length
    simpa only [bind_assoc] using hblock
  | namedfunctiondef name body =>
    rw [stat]
    apply (emits_functiondef body).bind
    intro fcn
    apply (emits_create (by decide) _ _ _).bind
    intro alloc
    exact (emits_create (by decide) _ _ _).bind fun _ ↦ emits_pure _
  | localnamedfunctiondef name body =>
    rw [stat]
    apply (emits_functiondef body).bind
    intro fcn
    apply (emits_create (by decide) _ _ _).bind
    intro alloc
    exact (emits_create (by decide) _ _ _).bind fun _ ↦ emits_pure _
  | localvarlist namelist explist =>
    cases explist with
    | none =>
      rw [stat]
      exact (emits_allocLocals namelist).bind fun _ ↦ emits_pure _
    | some exps =>
      rw [stat]
      exact (emits_allocLocals namelist).bind fun varList ↦ emits_handleAssignList (emits_vals exps) varList

end

end Visitors

/-! ## The whole chunk -/

/-- The ops of each of the statements, one list behind the other. -/
inductive Generated (cur : ℕ) : State → List Stat → List (List GenOp) → State → Prop where
  | nil {st} : Generated cur st [] [] st
  | cons {st st₁ st' s stats ops opss blocks} (hstat : (stat s).run st = .ok ((), st₁))
      (hextends : Extends st st₁ cur ops blocks) (hopen : Open ops)
      (hstats : Generated cur st₁ stats opss st') :
      Generated cur st (s :: stats) (ops :: opss) st'

/-- Consecutive statements are generated one behind the other in the same block. -/
def InOrder (stats : List Stat) : Prop :=
  ∀ st cur st', AtEnd st cur → (statlist stats).run st = .ok ((), st') →
    ∃ opss blocks, Generated cur st stats opss st' ∧ Extends st st' cur opss.flatten blocks

theorem inOrder (stats : List Stat) : InOrder stats := by
  induction stats with
  | nil =>
    intro st cur st' _ hrun
    rw [statlist] at hrun
    cases hrun
    exact ⟨[], [], .nil, .refl st cur⟩
  | cons s stats ih =>
    intro st cur st' hend hrun
    rw [statlist, StateT.run_bind] at hrun
    have hstat := emits_stat s st cur hend
    cases hfirst : (stat s).run st with
    | error failure =>
      rw [hfirst] at hrun
      cases hrun
    | ok result =>
      obtain ⟨_, st₁⟩ := result
      rw [hfirst] at hrun hstat
      obtain ⟨ops, blocks, hextends, hopen⟩ := hstat
      obtain ⟨opss, blocks', hgenerated, hextends'⟩ := ih st₁ cur st' (hextends.atEnd hend) hrun
      exact ⟨ops :: opss, blocks ++ blocks', .cons hfirst hextends hopen hgenerated,
        hextends.trans hextends' hend.bound⟩

/-- All blocks are complete, and the builder is where the body of `lua_main` ends. -/
structure WellFormed (st : State) : Prop where
  complete : ∀ block ∈ st.blocks, Complete 0 st.nextOp block
  blockStack : st.blockStack = [none]
  curBlock : st.curBlock = some 0
  insertion : st.insertion = some ⟨0, 0⟩

def ChunkDisciplined (ctx : Block) : Prop :=
  match (chunk ctx).run .start with
  | .error failure => ∃ message, failure = .unsupported message
  | .ok (_, st) => WellFormed st

theorem chunkDisciplined (ctx : Block) : ChunkDisciplined ctx := by
  have hmain : Emits true (block ctx >>= fun _ ↦
      assertNoRetstat ctx "unexpected return statement" >>= fun _ ↦
        makeConcat [] [] .ret 0 >>= fun _ ↦ pure ()) :=
    (emits_block ctx).bind fun _ ↦ (emits_assertNoRetstat ctx _).bind fun _ ↦
      (emits_terminator (by decide) _ _ _).map ()
  let st₁ : State := ⟨[⟨0, 0, 0, []⟩], [none], some 0, some ⟨0, 0⟩, 1⟩
  have hrun := hmain st₁ 0 ⟨rfl, rfl, Nat.zero_lt_one⟩
  have hchunk : (chunk ctx).run .start = (block ctx >>= fun _ ↦
      assertNoRetstat ctx "unexpected return statement" >>= fun _ ↦
        makeConcat [] [] .ret 0 >>= fun _ ↦ pure ()).run st₁ := rfl
  unfold ChunkDisciplined
  rw [hchunk]
  cases h : (block ctx >>= fun _ ↦ assertNoRetstat ctx "unexpected return statement" >>= fun _ ↦
      makeConcat [] [] .ret 0 >>= fun _ ↦ pure ()).run st₁ with
  | error failure =>
    rw [h] at hrun
    exact hrun
  | ok result =>
    obtain ⟨_, st⟩ := result
    rw [h] at hrun
    obtain ⟨ops, blocks, hextends, hclosed⟩ := hrun
    refine ⟨?_, hextends.blockStack, hextends.curBlock, hextends.insertion⟩
    intro block hblock
    rw [hextends.blocks_eq] at hblock
    rcases List.mem_append.mp hblock with hblock | hblock
    · obtain rfl := List.mem_singleton.mp hblock
      exact ⟨hclosed, hextends.ordered.1, fun op hop ↦
        ⟨Nat.zero_le _, (hextends.ordered.2 op hop).2⟩⟩
    · exact (hextends.complete block hblock).mono (Nat.zero_le _) le_rfl

/-- A chunk that is generated consists of complete blocks, every statement and every expression
leaves the stack and the insertion point as they were, and consecutive statements stand one behind
the other. -/
theorem generator_blockDiscipline :
    (∀ ctx, ChunkDisciplined ctx) ∧ (∀ s, Emits false (stat s)) ∧
      (∀ ctx allowPack, Emits false (exp ctx allowPack)) ∧ ∀ stats, InOrder stats :=
  ⟨chunkDisciplined, emits_stat, emits_exp, inOrder⟩

end DeclarativeMlir.Lua.AstWalker
