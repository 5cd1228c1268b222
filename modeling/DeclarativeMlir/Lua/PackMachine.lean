import DeclarativeMlir.Lua.PackBuffers

/-!
# Runs of calls and returns over the shared pack buffers

A function body alternates straight-line code, calls whose results are unpacked at once, and
ends in a `return`. A call or a `return` lists cells and may end in a nested call, whose pack is
handed on unopened. Nothing is executed between building a pack and receiving it: a callee
unpacks its arguments first, and a caller unpacks or passes on the results first.

`Machine.runBody` runs such bodies over the two buffers and logs every pack it builds;
`Machine.evalBody` is the same program with packs as immutable lists. The log decides when the
two agree.
-/

namespace DeclarativeMlir.Lua.PackBuffers

/-- `fcn(vals, tail)`, with `tail` a call that supplies all its results. -/
inductive Call (Ref : Type) where
  | mk (fcn : Ref) (vals : List Ref) (tail : Option (Call Ref))

/-- A function body over a store `Store` of cells. -/
inductive Body (Obj Ref Store : Type) where
  /-- `lua.ret` -/
  | ret (vals : List Ref) (tail : Option (Call Ref))
  /-- `lua.call` followed by a `lua.unpack` with `n` results -/
  | callUnpack (call : Call Ref) (n : ℕ) (rest : List Obj → Body Obj Ref Store)
  /-- code without calls -/
  | straight (op : Store → Store) (rest : Store → Body Obj Ref Store)

/-- What a function value denotes: compiled code, which unpacks its parameters on entry, or a
builtin of the runtime, which returns the empty null pack. -/
inductive Function (Obj Ref Store : Type) where
  | packFunc (params : ℕ) (body : List Obj → Body Obj Ref Store)
  | builtin (effect : List Obj → Store → Store)

/-- The program and the representation of cells, shared by both semantics. -/
structure Machine (Obj Ref Store : Type) where
  nil : Obj
  load : Ref → Store → Obj
  code : Obj → Function Obj Ref Store

structure State (Obj Store : Type) where
  store : Store
  memory : Memory Obj
  log : List (PackEvent Obj)

namespace State

variable {Obj Ref Store : Type}

def start (store : Store) (memory : Memory Obj) : State Obj Store := ⟨store, memory, []⟩

end State

namespace Machine

variable {Obj Ref Store : Type} (machine : Machine Obj Ref Store)

/-- Run the code of a `lua.concat` and log the pack its receiver gets. -/
def build (getter : PackMem) (vals : List Ref) (tail : Option Pack) (state : State Obj Store) :
    Option Pack × State Obj Store :=
  let loaded := vals.map fun ref ↦ machine.load ref state.store
  match expandConcat getter loaded tail state.memory with
  | none => (none, state)
  | some (pack, memory) =>
    let event := ⟨getter, loaded, readTail tail state.memory, readPack pack memory⟩
    (some pack, { state with memory := memory, log := state.log ++ [event] })

/-- The argument pack of a call. `elideConcatPack` has replaced a concat without listed values by
its trailing pack; any other one is expanded. -/
def buildArgs (vals : List Ref) (tail : Option Pack) (state : State Obj Store) :
    Option Pack × State Obj Store :=
  match vals, tail with
  | [], some tail =>
    let results := readPack tail state.memory
    (some tail, { state with log := state.log ++ [⟨tail.objs, [], results, results⟩] })
  | vals, tail => machine.build .gArgPackMem vals tail state

mutual

/-- A call with its nested trailing calls. The state is returned also when the run is cut off
by `fuel` or by a write past the buffer. -/
def runCall : ℕ → Call Ref → State Obj Store → Option Pack × State Obj Store
  | 0, _, state => (none, state)
  | fuel + 1, .mk fcn vals none, state => enter fuel fcn vals none state
  | fuel + 1, .mk fcn vals (some inner), state =>
    match runCall fuel inner state with
    | (none, state) => (none, state)
    | (some tail, state) => enter fuel fcn vals (some tail) state

/-- Build the argument pack, then run the callee (`expandCall`, `argPackFunctionDef`). -/
def enter : ℕ → Ref → List Ref → Option Pack → State Obj Store → Option Pack × State Obj Store
  | 0, _, _, _, state => (none, state)
  | fuel + 1, fcn, vals, tail, state =>
    match machine.buildArgs vals tail state with
    | (none, state) => (none, state)
    | (some args, state) =>
      match machine.code (machine.load fcn state.store) with
      | .builtin effect =>
        let received := readPack args state.memory
        (some ⟨0, .null⟩, { state with store := effect received state.store })
      | .packFunc params body =>
        runBody fuel (body (expandUnpack machine.nil params args state.memory)) state

def runBody : ℕ → Body Obj Ref Store → State Obj Store → Option Pack × State Obj Store
  | 0, _, state => (none, state)
  | _ + 1, .ret vals none, state => machine.build .gRetPackMem vals none state
  | fuel + 1, .ret vals (some call), state =>
    match runCall fuel call state with
    | (none, state) => (none, state)
    | (some tail, state) => machine.build .gRetPackMem vals (some tail) state
  | fuel + 1, .callUnpack call n rest, state =>
    match runCall fuel call state with
    | (none, state) => (none, state)
    | (some pack, state) =>
      runBody fuel (rest (expandUnpack machine.nil n pack state.memory)) state
  | fuel + 1, .straight op rest, state =>
    let state := { state with store := op state.store }
    runBody fuel (rest state.store) state

end

mutual

/-- The reference semantics: packs are lists of values. -/
def evalCall : ℕ → Call Ref → Store → Option (List Obj × Store)
  | 0, _, _ => none
  | fuel + 1, .mk fcn vals none, store => evalEnter fuel fcn vals [] store
  | fuel + 1, .mk fcn vals (some inner), store => do
    let (tail, store) ← evalCall fuel inner store
    evalEnter fuel fcn vals tail store

def evalEnter : ℕ → Ref → List Ref → List Obj → Store → Option (List Obj × Store)
  | 0, _, _, _, _ => none
  | fuel + 1, fcn, vals, tail, store =>
    let args := (vals.map fun ref ↦ machine.load ref store) ++ tail
    match machine.code (machine.load fcn store) with
    | .builtin effect => some ([], effect args store)
    | .packFunc params body =>
      evalBody fuel (body ((List.range params).map fun i ↦ (args[i]?).getD machine.nil)) store

def evalBody : ℕ → Body Obj Ref Store → Store → Option (List Obj × Store)
  | 0, _, _ => none
  | _ + 1, .ret vals none, store => some (vals.map fun ref ↦ machine.load ref store, store)
  | fuel + 1, .ret vals (some call), store => do
    let (tail, store) ← evalCall fuel call store
    pure ((vals.map fun ref ↦ machine.load ref store) ++ tail, store)
  | fuel + 1, .callUnpack call n rest, store => do
    let (results, store) ← evalCall fuel call store
    evalBody fuel (rest ((List.range n).map fun i ↦ (results[i]?).getD machine.nil)) store
  | fuel + 1, .straight op rest, store => evalBody fuel (rest (op store)) (op store)

end

/-! ## Every pack of a run -/

def LogExactIff (log : List (PackEvent Obj)) : Prop :=
  ∀ event ∈ log, event.Exact ↔ event.TailSafe

/-- What every run keeps: the law of the log, and results in the return buffer. -/
def Sound (outcome : Option Pack × State Obj Store) : Prop :=
  LogExactIff outcome.2.log ∧ ∀ pack ∈ outcome.1, pack.Returned

theorem build_cases (getter : PackMem) (vals : List Ref) (tail : Option Pack)
    (state : State Obj Store) :
    machine.build getter vals tail state = (none, state) ∨
      ∃ pack memory,
        expandConcat getter (vals.map fun ref ↦ machine.load ref state.store) tail state.memory =
          some (pack, memory) ∧
        machine.build getter vals tail state =
          (some pack, { state with
            memory := memory
            log := state.log ++ [⟨getter, vals.map fun ref ↦ machine.load ref state.store,
              readTail tail state.memory, readPack pack memory⟩] }) := by
  cases hconcat : expandConcat getter (vals.map fun ref ↦ machine.load ref state.store) tail
      state.memory with
  | none => exact .inl (by simp only [build, hconcat])
  | some result => exact .inr ⟨result.1, result.2, rfl, by simp only [build, hconcat]⟩

/-- Building keeps the law of the log. -/
theorem build_logExactIff (getter : PackMem) (vals : List Ref) (tail : Option Pack)
    (state : State Obj Store) (hgetter : getter = .gArgPackMem ∨ getter = .gRetPackMem)
    (htail : ∀ t ∈ tail, t.Returned) (hlog : LogExactIff state.log) :
    LogExactIff (machine.build getter vals tail state).2.log := by
  rcases machine.build_cases getter vals tail state with hbuild | ⟨pack, memory, hconcat, hbuild⟩
  · rw [hbuild]
    exact hlog
  · rw [hbuild]
    intro event hevent
    rcases List.mem_append.mp hevent with hold | hnew
    · exact hlog event hold
    · rw [List.mem_singleton.mp hnew]
      exact expandConcat_exact_iff hconcat hgetter htail

theorem buildArgs_logExactIff (vals : List Ref) (tail : Option Pack) (state : State Obj Store)
    (htail : ∀ t ∈ tail, t.Returned) (hlog : LogExactIff state.log) :
    LogExactIff (machine.buildArgs vals tail state).2.log := by
  unfold buildArgs
  split
  · intro event hevent
    rcases List.mem_append.mp hevent with hold | hnew
    · exact hlog event hold
    · rw [List.mem_singleton.mp hnew]
      simp [PackEvent.Exact, PackEvent.TailSafe]
  · exact machine.build_logExactIff .gArgPackMem _ _ state (.inl rfl) htail hlog

theorem build_ret_sound (vals : List Ref) (tail : Option Pack) (state : State Obj Store)
    (htail : ∀ t ∈ tail, t.Returned) (hlog : LogExactIff state.log) :
    Sound (machine.build .gRetPackMem vals tail state) := by
  refine ⟨machine.build_logExactIff _ vals tail state (.inr rfl) htail hlog, ?_⟩
  rcases machine.build_cases .gRetPackMem vals tail state with hbuild | ⟨pack, memory, hconcat, hbuild⟩
  · simp [hbuild]
  · intro result hresult
    rw [hbuild] at hresult
    cases Option.some.inj hresult
    exact .inl (by rw [(expandConcat_eq_some hconcat).1])

/-- One more unit of fuel keeps soundness, for each of the three kinds of run. -/
theorem run_sound (fuel : ℕ) :
    (∀ call state, LogExactIff state.log → Sound (machine.runCall fuel call state)) ∧
    (∀ fcn vals tail state, (∀ t ∈ tail, t.Returned) → LogExactIff state.log →
      Sound (machine.enter fuel fcn vals tail state)) ∧
    (∀ body state, LogExactIff state.log → Sound (machine.runBody fuel body state)) := by
  induction fuel with
  | zero =>
    refine ⟨fun _ state hlog ↦ ?_, fun _ _ _ state _ hlog ↦ ?_, fun _ state hlog ↦ ?_⟩
    · rw [runCall]
      exact ⟨hlog, by simp⟩
    · rw [enter]
      exact ⟨hlog, by simp⟩
    · rw [runBody]
      exact ⟨hlog, by simp⟩
  | succ fuel ih =>
    obtain ⟨ihCall, ihEnter, ihBody⟩ := ih
    refine ⟨fun call state hlog ↦ ?_, fun fcn vals tail state htail hlog ↦ ?_,
      fun body state hlog ↦ ?_⟩
    · obtain ⟨fcn, vals, tail⟩ := call
      cases tail with
      | none =>
        rw [runCall]
        exact ihEnter fcn vals none state (by simp) hlog
      | some inner =>
        have hinner := ihCall inner state hlog
        rw [runCall]
        rcases hrun : machine.runCall fuel inner state with ⟨_ | tail, middle⟩ <;> rw [hrun] at hinner
        · exact hinner
        · exact ihEnter fcn vals (some tail) middle hinner.2 hinner.1
    · have hbuilt := machine.buildArgs_logExactIff vals tail state htail hlog
      rw [enter]
      rcases hrun : machine.buildArgs vals tail state with ⟨_ | args, middle⟩ <;>
        rw [hrun] at hbuilt
      · exact ⟨hbuilt, by simp⟩
      · cases hcode : machine.code (machine.load fcn middle.store) with
        | builtin effect =>
          simp only [hcode]
          exact ⟨hbuilt, by simp [Pack.Returned]⟩
        | packFunc params body =>
          simp only [hcode]
          exact ihBody _ middle hbuilt
    · cases body with
      | ret vals tail =>
        cases tail with
        | none =>
          rw [runBody]
          exact machine.build_ret_sound vals none state (by simp) hlog
        | some call =>
          have hinner := ihCall call state hlog
          rw [runBody]
          rcases hrun : machine.runCall fuel call state with ⟨_ | tail, middle⟩ <;>
            rw [hrun] at hinner
          · exact hinner
          · exact machine.build_ret_sound vals (some tail) middle hinner.2 hinner.1
      | callUnpack call n rest =>
        have hinner := ihCall call state hlog
        rw [runBody]
        rcases hrun : machine.runCall fuel call state with ⟨_ | pack, middle⟩ <;>
          rw [hrun] at hinner
        · exact hinner
        · exact ihBody _ middle hinner.1
      | straight op rest =>
        rw [runBody]
        exact ihBody _ _ hlog

/-- In every run of every program, a pack holds the listed values followed by the trailing
results exactly when it is `TailSafe`. -/
theorem pack_exact_iff (body : Body Obj Ref Store) (fuel : ℕ) (store : Store)
    (memory : Memory Obj) (event : PackEvent Obj)
    (hevent : event ∈ (machine.runBody fuel body (.start store memory)).2.log) :
    event.Exact ↔ event.TailSafe :=
  ((machine.run_sound fuel).2.2 body (.start store memory)
    (fun _ h ↦ absurd h (by simp [State.start]))).1 event hevent

/-! ## `return 7, f()` with `f` returning 1 -/

/-- Cells are their own contents; the function value `0` returns `1`. -/
def oneResult : Machine ℕ ℕ Unit where
  nil := 0
  load ref _ := ref
  code _ := .packFunc 0 fun _ ↦ .ret [1] none

def returnSevenAndCall : Body ℕ ℕ Unit := .ret [7] (some (.mk 0 [] none))

/-- The caller receives `7, 7` instead of `7, 1`. -/
theorem returnSevenAndCall_not_exact :
    ¬ ∀ event ∈ (oneResult.runBody 6 returnSevenAndCall (.start () fun _ ↦ 0)).2.log,
      event.Exact := by
  decide

theorem returnSevenAndCall_event :
    (⟨.gRetPackMem, [7], [1], [7, 7]⟩ : PackEvent ℕ).Exact ↔
      (⟨.gRetPackMem, [7], [1], [7, 7]⟩ : PackEvent ℕ).TailSafe :=
  oneResult.pack_exact_iff returnSevenAndCall 6 () (fun _ ↦ 0) _ (by decide)

/-! ## Refinement of immutable packs -/

theorem build_log_prefix (getter : PackMem) (vals : List Ref) (tail : Option Pack)
    (state : State Obj Store) : state.log <+: (machine.build getter vals tail state).2.log := by
  rcases machine.build_cases getter vals tail state with hbuild | ⟨pack, memory, -, hbuild⟩
  · simp only [hbuild, List.prefix_rfl]
  · rw [hbuild]
    exact List.prefix_append _ _

theorem buildArgs_log_prefix (vals : List Ref) (tail : Option Pack) (state : State Obj Store) :
    state.log <+: (machine.buildArgs vals tail state).2.log := by
  unfold buildArgs
  split
  · exact List.prefix_append _ _
  · exact machine.build_log_prefix .gArgPackMem _ _ state

/-- The log only grows. -/
theorem run_log_prefix (fuel : ℕ) :
    (∀ call state, state.log <+: (machine.runCall fuel call state).2.log) ∧
    (∀ fcn vals tail state, state.log <+: (machine.enter fuel fcn vals tail state).2.log) ∧
    (∀ body state, state.log <+: (machine.runBody fuel body state).2.log) := by
  induction fuel with
  | zero =>
    refine ⟨fun _ state ↦ ?_, fun _ _ _ state ↦ ?_, fun _ state ↦ ?_⟩
    · simp only [runCall, List.prefix_rfl]
    · simp only [enter, List.prefix_rfl]
    · simp only [runBody, List.prefix_rfl]
  | succ fuel ih =>
    obtain ⟨ihCall, ihEnter, ihBody⟩ := ih
    refine ⟨fun call state ↦ ?_, fun fcn vals tail state ↦ ?_, fun body state ↦ ?_⟩
    · obtain ⟨fcn, vals, tail⟩ := call
      cases tail with
      | none =>
        rw [runCall]
        exact ihEnter fcn vals none state
      | some inner =>
        have hinner := ihCall inner state
        rw [runCall]
        rcases hrun : machine.runCall fuel inner state with ⟨_ | tail, middle⟩ <;> rw [hrun] at hinner
        · exact hinner
        · exact hinner.trans (ihEnter fcn vals (some tail) middle)
    · have hbuilt := machine.buildArgs_log_prefix vals tail state
      rw [enter]
      rcases hrun : machine.buildArgs vals tail state with ⟨_ | args, middle⟩ <;>
        rw [hrun] at hbuilt
      · exact hbuilt
      · cases hcode : machine.code (machine.load fcn middle.store) with
        | builtin effect =>
          simp only [hcode]
          exact hbuilt
        | packFunc params body =>
          simp only [hcode]
          exact hbuilt.trans (ihBody _ middle)
    · cases body with
      | ret vals tail =>
        cases tail with
        | none =>
          rw [runBody]
          exact machine.build_log_prefix .gRetPackMem vals none state
        | some call =>
          have hinner := ihCall call state
          rw [runBody]
          rcases hrun : machine.runCall fuel call state with ⟨_ | tail, middle⟩ <;>
            rw [hrun] at hinner
          · exact hinner
          · exact hinner.trans (machine.build_log_prefix .gRetPackMem vals (some tail) middle)
      | callUnpack call n rest =>
        have hinner := ihCall call state
        rw [runBody]
        rcases hrun : machine.runCall fuel call state with ⟨_ | pack, middle⟩ <;>
          rw [hrun] at hinner
        · exact hinner
        · exact hinner.trans (ihBody _ middle)
      | straight op rest =>
        rw [runBody]
        exact ihBody _ { state with store := op state.store }

/-- An exact pack holds what the reference semantics puts into it. -/
theorem build_refines {getter : PackMem} {vals : List Ref} {tail : Option Pack}
    {state state' : State Obj Store} {pack : Pack}
    (hbuild : machine.build getter vals tail state = (some pack, state'))
    (hexact : ∀ event ∈ state'.log, event.Exact) :
    readPack pack state'.memory =
        (vals.map fun ref ↦ machine.load ref state.store) ++ readTail tail state.memory ∧
      state'.store = state.store := by
  rcases machine.build_cases getter vals tail state with hnone | ⟨built, memory, -, hsome⟩
  · rw [hnone] at hbuild
    exact absurd (congrArg Prod.fst hbuild) (by simp)
  · rw [hsome] at hbuild
    cases hbuild
    exact ⟨hexact _ (List.mem_append_right _ (List.mem_singleton_self _)), rfl⟩

theorem buildArgs_refines {vals : List Ref} {tail : Option Pack} {state state' : State Obj Store}
    {pack : Pack} (hbuild : machine.buildArgs vals tail state = (some pack, state'))
    (hexact : ∀ event ∈ state'.log, event.Exact) :
    readPack pack state'.memory =
        (vals.map fun ref ↦ machine.load ref state.store) ++ readTail tail state.memory ∧
      state'.store = state.store := by
  unfold buildArgs at hbuild
  split at hbuild
  · cases hbuild
    exact ⟨by simp [readTail], rfl⟩
  · exact machine.build_refines hbuild hexact

/-- A finished run all of whose packs are exact computes what the reference semantics does. -/
theorem run_refines (fuel : ℕ) :
    (∀ call state pack state', machine.runCall fuel call state = (some pack, state') →
      (∀ event ∈ state'.log, event.Exact) →
      machine.evalCall fuel call state.store = some (readPack pack state'.memory, state'.store)) ∧
    (∀ fcn vals tail state pack state',
      machine.enter fuel fcn vals tail state = (some pack, state') →
      (∀ event ∈ state'.log, event.Exact) →
      machine.evalEnter fuel fcn vals (readTail tail state.memory) state.store =
        some (readPack pack state'.memory, state'.store)) ∧
    (∀ body state pack state', machine.runBody fuel body state = (some pack, state') →
      (∀ event ∈ state'.log, event.Exact) →
      machine.evalBody fuel body state.store = some (readPack pack state'.memory, state'.store)) := by
  induction fuel with
  | zero =>
    refine ⟨fun _ _ _ _ hrun ↦ ?_, fun _ _ _ _ _ _ hrun ↦ ?_, fun _ _ _ _ hrun ↦ ?_⟩
    · exact absurd (congrArg Prod.fst hrun) (by simp [runCall])
    · exact absurd (congrArg Prod.fst hrun) (by simp [enter])
    · exact absurd (congrArg Prod.fst hrun) (by simp [runBody])
  | succ fuel ih =>
    obtain ⟨ihCall, ihEnter, ihBody⟩ := ih
    refine ⟨fun call state pack state' hrun hexact ↦ ?_,
      fun fcn vals tail state pack state' hrun hexact ↦ ?_,
      fun body state pack state' hrun hexact ↦ ?_⟩
    · obtain ⟨fcn, vals, tail⟩ := call
      cases tail with
      | none =>
        rw [runCall] at hrun
        rw [evalCall]
        exact ihEnter fcn vals none state pack state' hrun hexact
      | some inner =>
        rw [runCall] at hrun
        rcases hinner : machine.runCall fuel inner state with ⟨_ | tail, middle⟩ <;>
          rw [hinner] at hrun
        · exact absurd (congrArg Prod.fst hrun) (by simp)
        · have hmiddle : middle.log <+: state'.log := by
            have := (machine.run_log_prefix fuel).2.1 fcn vals (some tail) middle
            rwa [show machine.enter fuel fcn vals (some tail) middle = _ from hrun] at this
          have htail := ihCall inner state tail middle hinner
            (fun event hevent ↦ hexact event (hmiddle.subset hevent))
          have hrest := ihEnter fcn vals (some tail) middle pack state' hrun hexact
          rw [evalCall, htail]
          exact hrest
    · rw [enter] at hrun
      rcases hbuild : machine.buildArgs vals tail state with ⟨_ | args, middle⟩ <;>
        rw [hbuild] at hrun
      · exact absurd (congrArg Prod.fst hrun) (by simp)
      · cases hcode : machine.code (machine.load fcn middle.store) with
        | builtin effect =>
          simp only [hcode] at hrun
          cases hrun
          obtain ⟨hread, hstore⟩ := machine.buildArgs_refines hbuild hexact
          rw [hstore] at hcode
          simp only [evalEnter, hcode, ← hread, hstore]
          rw [readPack_eq_nil ⟨0, .null⟩ _ rfl]
        | packFunc params body =>
          simp only [hcode] at hrun
          have hmiddle : middle.log <+: state'.log := by
            have := (machine.run_log_prefix fuel).2.2
              (body (expandUnpack machine.nil params args middle.memory)) middle
            rwa [hrun] at this
          obtain ⟨hread, hstore⟩ := machine.buildArgs_refines hbuild
            (fun event hevent ↦ hexact event (hmiddle.subset hevent))
          have hbody := ihBody _ middle pack state' hrun hexact
          rw [expandUnpack_eq, hread, hstore] at hbody
          rw [hstore] at hcode
          simp only [evalEnter, hcode]
          exact hbody
    · cases body with
      | ret vals tail =>
        cases tail with
        | none =>
          rw [runBody] at hrun
          obtain ⟨hread, hstore⟩ := machine.build_refines hrun hexact
          rw [evalBody, hread, hstore]
          simp [readTail]
        | some call =>
          rw [runBody] at hrun
          rcases hinner : machine.runCall fuel call state with ⟨_ | tail, middle⟩ <;>
            rw [hinner] at hrun
          · exact absurd (congrArg Prod.fst hrun) (by simp)
          · have hmiddle : middle.log <+: state'.log := by
              have := machine.build_log_prefix .gRetPackMem vals (some tail) middle
              rwa [show machine.build .gRetPackMem vals (some tail) middle = _ from hrun] at this
            have htail := ihCall call state tail middle hinner
              (fun event hevent ↦ hexact event (hmiddle.subset hevent))
            obtain ⟨hread, hstore⟩ := machine.build_refines hrun hexact
            rw [evalBody, htail, hread, hstore]
            rfl
      | callUnpack call n rest =>
        rw [runBody] at hrun
        rcases hinner : machine.runCall fuel call state with ⟨_ | results, middle⟩ <;>
          rw [hinner] at hrun
        · exact absurd (congrArg Prod.fst hrun) (by simp)
        · have hmiddle : middle.log <+: state'.log := by
            have := (machine.run_log_prefix fuel).2.2
              (rest (expandUnpack machine.nil n results middle.memory)) middle
            rwa [show machine.runBody fuel _ middle = _ from hrun] at this
          have hresults := ihCall call state results middle hinner
            (fun event hevent ↦ hexact event (hmiddle.subset hevent))
          have hbody := ihBody _ middle pack state' hrun hexact
          rw [expandUnpack_eq] at hbody
          rw [evalBody, hresults]
          exact hbody
      | straight op rest =>
        rw [runBody] at hrun
        rw [evalBody]
        exact ihBody _ _ pack state' hrun hexact

end Machine

end DeclarativeMlir.Lua.PackBuffers
