import DeclarativeMlir.Lua.PackMachine

/-!
# Where packs are written

`prepMain` gives both pack buffers `packCapacity` slots. The code of a `lua.concat` asks for a pack
of the listed values and of the trailing pack together and writes them all; the size is put into
the pack and is compared with nothing. The machine below is the one of `PackMachine`, and records
what is asked for and what is written, up to the first write outside of a buffer.
-/

namespace DeclarativeMlir.Lua.PackWrites

open PackBuffers

/-- What the code of a concat does to a buffer. -/
inductive Access where
  /-- the pack is asked for, for so many listed values and a trailing pack of this size -/
  | getPack (mem : PackMem) (listed tailSize : ℕ)
  /-- `luac.pack_insert` -/
  | insert (mem : PackMem) (idx : ℕ)
  deriving DecidableEq, Repr

/-- A run may stop, and what it has done to the buffers remains. -/
abbrev Traced (α : Type) := OptionT (StateM (List Access)) α

def record (access : Access) : Traced Unit := modify fun trace ↦ trace ++ [access]

/-- No value behind a buffer is overwritten. -/
def InBounds (trace : List Access) : Prop :=
  ∀ mem idx, .insert mem idx ∈ trace → idx < packCapacity

/-- What is asked for is not more than there is. -/
def Fits (trace : List Access) : Prop :=
  ∀ mem listed tailSize, .getPack mem listed tailSize ∈ trace → listed + tailSize ≤ packCapacity

/-! ## Runs -/

section Runs

variable {Obj Ref Store : Type}

def packInsert (pack : Pack) (val : Obj) (idx : ℕ) (memory : Memory Obj) :
    Traced (Memory Obj) := do
  record (.insert pack.objs idx)
  OptionT.mk (pure (PackBuffers.packInsert pack val idx memory))

def packInsertVals (pack : Pack) : ℕ → List Obj → Memory Obj → Traced (Memory Obj)
  | _, [], memory => return memory
  | idx, val :: vals, memory => do
    let memory ← packInsert pack val idx memory
    packInsertVals pack (idx + 1) vals memory

def packInsertAllLoop (pack tail : Pack) (idx : ℕ) : ℕ → Memory Obj → Traced (Memory Obj)
  | 0, memory => return memory
  | n + 1, memory => do
    let memory ← packInsertAllLoop pack tail idx n memory
    packInsert pack (packGetUnsafe tail n memory) (idx + n) memory

/-- The size of a trailing pack, if there is one. -/
def tailSize (tail : Option Pack) : ℕ := tail.elim 0 Pack.size

def expandConcat (getter : PackMem) (vals : List Obj) (tail : Option Pack)
    (memory : Memory Obj) : Traced (Pack × Memory Obj) := do
  let pack : Pack := ⟨vals.length + tailSize tail, getter⟩
  record (.getPack getter vals.length (tailSize tail))
  let memory ← packInsertVals pack 0 vals memory
  match tail with
  | none => return (pack, memory)
  | some tail => do
    let memory ← packInsertAllLoop pack tail vals.length tail.size memory
    return (pack, memory)

variable (machine : Machine Obj Ref Store)

def build (getter : PackMem) (vals : List Ref) (tail : Option Pack) (store : Store)
    (memory : Memory Obj) : Traced (Pack × Memory Obj) :=
  expandConcat getter (vals.map fun ref ↦ machine.load ref store) tail memory

def buildArgs (vals : List Ref) (tail : Option Pack) (store : Store) (memory : Memory Obj) :
    Traced (Pack × Memory Obj) :=
  match vals, tail with
  | [], some tail => return (tail, memory)
  | vals, tail => build machine .gArgPackMem vals tail store memory

mutual

def runCall : ℕ → Call Ref → Store → Memory Obj → Traced (Pack × Store × Memory Obj)
  | 0, _, _, _ => failure
  | fuel + 1, .mk fcn vals none, store, memory => enter fuel fcn vals none store memory
  | fuel + 1, .mk fcn vals (some inner), store, memory => do
    let (tail, store, memory) ← runCall fuel inner store memory
    enter fuel fcn vals (some tail) store memory

def enter : ℕ → Ref → List Ref → Option Pack → Store → Memory Obj →
    Traced (Pack × Store × Memory Obj)
  | 0, _, _, _, _, _ => failure
  | fuel + 1, fcn, vals, tail, store, memory => do
    let (args, memory) ← buildArgs machine vals tail store memory
    match machine.code (machine.load fcn store) with
    | .builtin effect => return (⟨0, .null⟩, effect (readPack args memory) store, memory)
    | .packFunc params body =>
      runBody fuel (body (expandUnpack machine.nil params args memory)) store memory

def runBody : ℕ → Body Obj Ref Store → Store → Memory Obj → Traced (Pack × Store × Memory Obj)
  | 0, _, _, _ => failure
  | _ + 1, .ret vals none, store, memory => do
    let (pack, memory) ← build machine .gRetPackMem vals none store memory
    return (pack, store, memory)
  | fuel + 1, .ret vals (some call), store, memory => do
    let (tail, store, memory) ← runCall fuel call store memory
    let (pack, memory) ← build machine .gRetPackMem vals (some tail) store memory
    return (pack, store, memory)
  | fuel + 1, .callUnpack call n rest, store, memory => do
    let (pack, store, memory) ← runCall fuel call store memory
    runBody fuel (rest (expandUnpack machine.nil n pack memory)) store memory
  | fuel + 1, .straight op rest, store, memory =>
    runBody fuel (rest (op store)) (op store) memory

end

/-- What a run of `fuel` steps does to the buffers. -/
def accesses (fuel : ℕ) (body : Body Obj Ref Store) (store : Store) (memory : Memory Obj) :
    List Access :=
  ((runBody machine fuel body store memory).run.run []).2

end Runs

/-! ## Bounds -/

theorem InBounds.append_iff (first second : List Access) :
    InBounds (first ++ second) ↔ InBounds first ∧ InBounds second := by
  unfold InBounds
  simp only [List.mem_append, or_imp, forall_and]

theorem Fits.append_iff (first second : List Access) :
    Fits (first ++ second) ↔ Fits first ∧ Fits second := by
  unfold Fits
  simp only [List.mem_append, or_imp, forall_and]

section Law

variable {Obj Ref Store α β : Type}

/-- From any trace on, what is done is in bounds if and only if what is asked for fits. -/
def Law (p : Traced α) : Prop :=
  ∀ trace, ∃ done, (p.run.run trace).2 = trace ++ done ∧ (InBounds done ↔ Fits done)

theorem law_pure (a : α) : Law (pure a : Traced α) :=
  fun trace ↦ ⟨[], (List.append_nil trace).symm, by simp [InBounds, Fits]⟩

theorem law_failure : Law (failure : Traced α) :=
  fun trace ↦ ⟨[], (List.append_nil trace).symm, by simp [InBounds, Fits]⟩

theorem run_bind (p : Traced α) (f : α → Traced β) (trace : List Access) :
    (p >>= f).run.run trace =
      match p.run.run trace with
      | (none, trace') => (none, trace')
      | (some a, trace') => (f a).run.run trace' := by
  rw [OptionT.run_bind]
  rcases hrun : p.run.run trace with ⟨_ | a, trace'⟩
  · rw [Option.elimM, StateT.run_bind, hrun]
    rfl
  · rw [Option.elimM, StateT.run_bind, hrun]
    rfl

theorem Law.bind {p : Traced α} {f : α → Traced β} (hp : Law p) (hf : ∀ a, Law (f a)) :
    Law (p >>= f) := by
  intro trace
  obtain ⟨done, htrace, hdone⟩ := hp trace
  rw [run_bind]
  rcases hrun : p.run.run trace with ⟨_ | a, trace'⟩ <;> rw [hrun] at htrace
  · exact ⟨done, htrace, hdone⟩
  · obtain ⟨later, hlater, hlaw⟩ := hf a trace'
    have htrace' : trace' = trace ++ done := htrace
    refine ⟨done ++ later, ?_, ?_⟩
    · rw [← List.append_assoc, ← htrace']
      exact hlater
    · rw [InBounds.append_iff, Fits.append_iff, hdone, hlaw]

end Law

/-! ## The writes of a concat -/

section Concat

variable {Obj α β : Type}

/-- Slots are written one after the other, `n` of them from `first` on, as long as the buffer has
them. -/
def Writes (p : Traced α) (first n : ℕ) : Prop :=
  ∀ trace, ∃ result done, p.run.run trace = (result, trace ++ done) ∧ Fits done ∧
    (InBounds done ↔ n = 0 ∨ first + n ≤ packCapacity) ∧ (result.isSome ↔ InBounds done)

theorem writes_pure (a : α) (first : ℕ) : Writes (pure a : Traced α) first 0 :=
  fun trace ↦ ⟨some a, [], by rw [List.append_nil]; rfl, by simp [Fits], by simp [InBounds],
    by simp [InBounds]⟩

theorem Writes.bind {p : Traced α} {f : α → Traced β} {first n m : ℕ} (hp : Writes p first n)
    (hf : ∀ a, Writes (f a) (first + n) m) : Writes (p >>= f) first (n + m) := by
  intro trace
  obtain ⟨result, done, hrun, hfits, hbounds, hsome⟩ := hp trace
  rw [run_bind, hrun]
  cases result with
  | none =>
    have hnot : ¬ InBounds done := fun h ↦ absurd (hsome.mpr h) (by simp)
    refine ⟨none, done, rfl, hfits, iff_of_false hnot ?_, by simpa using hnot⟩
    rw [hbounds] at hnot
    omega
  | some a =>
    have hdone : InBounds done := hsome.mp rfl
    obtain ⟨result, later, hlater, hfits', hbounds', hsome'⟩ := hf a (trace ++ done)
    refine ⟨result, done ++ later, ?_, (Fits.append_iff _ _).mpr ⟨hfits, hfits'⟩, ?_, ?_⟩
    · rw [← List.append_assoc]
      exact hlater
    · rw [InBounds.append_iff, hbounds']
      have hn := hbounds.mp hdone
      simp only [hdone, true_and]
      omega
    · rw [hsome', InBounds.append_iff]
      simp only [hdone, true_and]

theorem writes_packInsert (pack : Pack) (val : Obj) (idx : ℕ) (memory : Memory Obj) :
    Writes (packInsert pack val idx memory) idx 1 := by
  intro trace
  have hbounds : InBounds [.insert pack.objs idx] ↔ 1 = 0 ∨ idx + 1 ≤ packCapacity := by
    unfold InBounds
    simp only [List.mem_singleton, Access.insert.injEq]
    constructor
    · intro h
      exact .inr (h _ _ ⟨rfl, rfl⟩)
    · rintro h mem _ ⟨rfl, rfl⟩
      omega
  refine ⟨PackBuffers.packInsert pack val idx memory, _, rfl, by simp [Fits], hbounds, ?_⟩
  rw [hbounds]
  unfold PackBuffers.packInsert
  split <;> simp <;> omega

theorem writes_packInsertVals (pack : Pack) (idx : ℕ) (vals : List Obj) (memory : Memory Obj) :
    Writes (packInsertVals pack idx vals memory) idx vals.length := by
  induction vals generalizing idx memory with
  | nil => exact writes_pure memory idx
  | cons val vals ih =>
    rw [List.length_cons, Nat.add_comm]
    exact (writes_packInsert pack val idx memory).bind fun memory ↦ ih (idx + 1) memory

theorem writes_packInsertAllLoop (pack tail : Pack) (idx n : ℕ) (memory : Memory Obj) :
    Writes (packInsertAllLoop pack tail idx n memory) idx n := by
  induction n with
  | zero => exact writes_pure memory idx
  | succ n ih => exact ih.bind fun memory ↦ writes_packInsert pack _ (idx + n) memory

theorem law_expandConcat (getter : PackMem) (vals : List Obj) (tail : Option Pack)
    (memory : Memory Obj) : Law (expandConcat getter vals tail memory) := by
  have hwrites : Writes (do
      let memory ← packInsertVals ⟨vals.length + tailSize tail, getter⟩ 0 vals memory
      match tail with
      | none => return (⟨vals.length + tailSize tail, getter⟩, memory)
      | some tail' => do
        let memory ← packInsertAllLoop ⟨vals.length + tailSize tail, getter⟩ tail' vals.length
          tail'.size memory
        return ((⟨vals.length + tailSize tail, getter⟩ : Pack), memory)) 0
      (vals.length + tailSize tail) := by
    apply (writes_packInsertVals _ 0 vals memory).bind
    intro memory
    rw [Nat.zero_add]
    cases tail with
    | none => exact writes_pure _ _
    | some tail =>
      exact (writes_packInsertAllLoop _ tail vals.length tail.size memory).bind fun memory ↦
        writes_pure _ _
  intro trace
  obtain ⟨result, done, hrun, hfits, hbounds, -⟩ :=
    hwrites (trace ++ [.getPack getter vals.length (tailSize tail)])
  refine ⟨.getPack getter vals.length (tailSize tail) :: done, ?_, ?_⟩
  · rw [List.append_cons]
    exact congrArg Prod.snd hrun
  · rw [← List.singleton_append, InBounds.append_iff, Fits.append_iff, hbounds]
    have hinsert : InBounds [.getPack getter vals.length (tailSize tail)] := by simp [InBounds]
    have hrequest : Fits [.getPack getter vals.length (tailSize tail)] ↔
        vals.length + tailSize tail ≤ packCapacity := by
      unfold Fits
      simp only [List.mem_singleton, Access.getPack.injEq]
      constructor
      · intro h
        exact h _ _ _ ⟨rfl, rfl, rfl⟩
      · rintro h mem listed size ⟨rfl, rfl, rfl⟩
        exact h
    simp only [hinsert, hrequest, hfits, true_and, and_true]
    omega

end Concat

/-! ## Every write of a run -/

section Runs

variable {Obj Ref Store : Type} (machine : Machine Obj Ref Store)

theorem law_buildArgs (vals : List Ref) (tail : Option Pack) (store : Store)
    (memory : Memory Obj) : Law (buildArgs machine vals tail store memory) := by
  unfold buildArgs
  split
  · exact law_pure _
  · exact law_expandConcat _ _ _ _

/-- One more unit of fuel keeps the law, for each of the three kinds of run. -/
theorem run_law (fuel : ℕ) :
    (∀ call store memory, Law (runCall machine fuel call store memory)) ∧
    (∀ fcn vals tail store memory, Law (enter machine fuel fcn vals tail store memory)) ∧
    (∀ body store memory, Law (runBody machine fuel body store memory)) := by
  induction fuel with
  | zero =>
    refine ⟨fun call store memory ↦ ?_, fun fcn vals tail store memory ↦ ?_,
      fun body store memory ↦ ?_⟩
    · rw [runCall]
      exact law_failure
    · rw [enter]
      exact law_failure
    · rw [runBody]
      exact law_failure
  | succ fuel ih =>
    obtain ⟨ihCall, ihEnter, ihBody⟩ := ih
    refine ⟨fun call store memory ↦ ?_, fun fcn vals tail store memory ↦ ?_,
      fun body store memory ↦ ?_⟩
    · obtain ⟨fcn, vals, tail⟩ := call
      cases tail with
      | none =>
        rw [runCall]
        exact ihEnter fcn vals none store memory
      | some inner =>
        rw [runCall]
        apply (ihCall inner store memory).bind
        rintro ⟨tail, store, memory⟩
        exact ihEnter fcn vals (some tail) store memory
    · rw [enter]
      apply (law_buildArgs machine vals tail store memory).bind
      rintro ⟨args, memory⟩
      cases machine.code (machine.load fcn store) with
      | builtin effect => exact law_pure _
      | packFunc params body => exact ihBody _ store memory
    · cases body with
      | ret vals tail =>
        cases tail with
        | none =>
          rw [runBody]
          exact (law_expandConcat _ _ _ _).bind fun _ ↦ law_pure _
        | some call =>
          rw [runBody]
          apply (ihCall call store memory).bind
          rintro ⟨tail, store, memory⟩
          exact (law_expandConcat _ _ _ _).bind fun _ ↦ law_pure _
      | callUnpack call n rest =>
        rw [runBody]
        apply (ihCall call store memory).bind
        rintro ⟨pack, store, memory⟩
        exact ihBody _ store memory
      | straight op rest =>
        rw [runBody]
        exact ihBody _ (op store) memory

/-- In every run of every program, all writes are inside of the buffers if and only if no pack is
asked for with more values than a buffer has slots. -/
theorem writes_inBounds_iff (fuel : ℕ) (body : Body Obj Ref Store) (store : Store)
    (memory : Memory Obj) :
    InBounds (accesses machine fuel body store memory) ↔
      Fits (accesses machine fuel body store memory) := by
  obtain ⟨done, hdone, hlaw⟩ := (run_law machine fuel).2.2 body store memory []
  rw [accesses, hdone]
  exact hlaw

/-- Cells are their own contents, and the function value `0` returns `n` values. -/
def returning (n : ℕ) : Machine ℕ ℕ Unit where
  nil := 0
  load ref _ := ref
  code fcn := if fcn = 0 then .packFunc 0 fun _ ↦ .ret (List.replicate n 7) none
    else .builtin fun _ store ↦ store

/-- `print` with 17 arguments, and with 8 arguments in front of a call that returns 9 values. -/
theorem writes_not_inBounds :
    ¬ InBounds (accesses (returning 9) 9
      (.callUnpack (.mk 1 (List.replicate 17 7) none) 0 fun _ ↦ .ret [] none) () fun _ ↦ 0) ∧
    ¬ InBounds (accesses (returning 9) 9
      (.callUnpack (.mk 1 (List.replicate 8 7) (some (.mk 0 [] none))) 0 fun _ ↦ .ret [] none) ()
      fun _ ↦ 0) := by
  constructor
  · intro h
    exact absurd (h .gArgPackMem 16 (by decide)) (by decide)
  · intro h
    exact absurd (h .gArgPackMem 16 (by decide)) (by decide)

end Runs

/-! ## Without the record -/

section Erasure

variable {Obj Ref Store α β : Type} (machine : Machine Obj Ref Store)

/-- What a run comes to, whatever it records. -/
def Erases (p : Traced α) (outcome : Option α) : Prop := ∀ trace, (p.run.run trace).1 = outcome

theorem Erases.bind {p : Traced α} {f : α → Traced β} {x : Option α} {y : α → Option β}
    (hp : Erases p x) (hf : ∀ a, Erases (f a) (y a)) : Erases (p >>= f) (x >>= y) := by
  intro trace
  have hx := hp trace
  rw [run_bind]
  rcases hrun : p.run.run trace with ⟨_ | a, trace'⟩ <;> rw [hrun] at hx <;> subst hx
  · rfl
  · exact hf a trace'

theorem erases_pure (a : α) : Erases (pure a : Traced α) (some a) := fun _ ↦ rfl

theorem erases_packInsertVals (pack : Pack) (idx : ℕ) (vals : List Obj) (memory : Memory Obj) :
    Erases (packInsertVals pack idx vals memory)
      (PackBuffers.packInsertVals pack idx vals memory) := by
  induction vals generalizing idx memory with
  | nil => exact erases_pure memory
  | cons val vals ih =>
    have hinsert : Erases (packInsert pack val idx memory)
        (PackBuffers.packInsert pack val idx memory) := fun _ ↦ rfl
    exact hinsert.bind fun memory ↦ ih (idx + 1) memory

theorem erases_packInsertAllLoop (pack tail : Pack) (idx n : ℕ) (memory : Memory Obj) :
    Erases (packInsertAllLoop pack tail idx n memory)
      (PackBuffers.packInsertAllLoop pack tail idx n memory) := by
  induction n with
  | zero => exact erases_pure memory
  | succ n ih => exact ih.bind fun memory _ ↦ rfl

theorem erases_expandConcat (getter : PackMem) (vals : List Obj) (tail : Option Pack)
    (memory : Memory Obj) :
    Erases (expandConcat getter vals tail memory)
      (PackBuffers.expandConcat getter vals tail memory) := by
  intro trace
  cases tail with
  | none =>
    exact ((erases_packInsertVals ⟨vals.length, getter⟩ 0 vals memory).bind fun memory ↦
      erases_pure _) _
  | some tail =>
    exact ((erases_packInsertVals ⟨vals.length + tail.size, getter⟩ 0 vals memory).bind
      fun memory ↦ (erases_packInsertAllLoop _ tail vals.length tail.size memory).bind
        fun memory ↦ erases_pure _) _

/-- The outcome of a run of `PackMachine`, without the log. -/
def result (outcome : Option Pack × State Obj Store) : Option (Pack × Store × Memory Obj) :=
  outcome.1.map fun pack ↦ (pack, outcome.2.store, outcome.2.memory)

/-- Building a pack leaves the store alone. -/
def ErasesBuild (p : Traced (Pack × Memory Obj)) (store : Store)
    (outcome : Option Pack × State Obj Store) : Prop :=
  Erases p (outcome.1.map fun pack ↦ (pack, outcome.2.memory)) ∧ outcome.2.store = store

theorem erases_build (getter : PackMem) (vals : List Ref) (tail : Option Pack)
    (state : State Obj Store) :
    ErasesBuild (build machine getter vals tail state.store state.memory) state.store
      (machine.build getter vals tail state) := by
  have hconcat := erases_expandConcat getter (vals.map fun ref ↦ machine.load ref state.store)
    tail state.memory
  unfold Machine.build
  dsimp only
  cases hsome : PackBuffers.expandConcat getter (vals.map fun ref ↦ machine.load ref state.store)
      tail state.memory with
  | none =>
    rw [hsome] at hconcat
    exact ⟨hconcat, rfl⟩
  | some built =>
    rw [hsome] at hconcat
    exact ⟨hconcat, rfl⟩

theorem erases_buildArgs (vals : List Ref) (tail : Option Pack) (state : State Obj Store) :
    ErasesBuild (buildArgs machine vals tail state.store state.memory) state.store
      (machine.buildArgs vals tail state) := by
  cases vals with
  | nil =>
    cases tail with
    | none => exact erases_build machine .gArgPackMem [] none state
    | some tail => exact ⟨erases_pure _, rfl⟩
  | cons val vals => exact erases_build machine .gArgPackMem (val :: vals) tail state

/-- Once the run of `p` has come to a state, the rest goes on from there. -/
theorem erases_bind_result {p : Traced (Pack × Store × Memory Obj)}
    {f : Pack × Store × Memory Obj → Traced β} {outcome : Option Pack × State Obj Store}
    {x : Option β} (hp : Erases p (result outcome)) (hnone : outcome.1 = none → x = none)
    (hf : ∀ pack, outcome.1 = some pack →
      Erases (f (pack, outcome.2.store, outcome.2.memory)) x) : Erases (p >>= f) x := by
  intro trace
  have hx := hp trace
  rw [run_bind]
  rcases outcome with ⟨_ | pack, state⟩ <;> rcases hrun : p.run.run trace with ⟨_ | a, trace'⟩ <;>
    rw [hrun] at hx <;> cases hx
  · exact (hnone rfl).symm
  · exact hf pack rfl trace'

theorem erases_bind_build {p : Traced (Pack × Memory Obj)} {f : Pack × Memory Obj → Traced β}
    {store : Store} {outcome : Option Pack × State Obj Store} {x : Option β}
    (hp : ErasesBuild p store outcome) (hnone : outcome.1 = none → x = none)
    (hf : ∀ pack, outcome.1 = some pack → Erases (f (pack, outcome.2.memory)) x) :
    Erases (p >>= f) x := by
  intro trace
  have hx := hp.1 trace
  rw [run_bind]
  rcases outcome with ⟨_ | pack, state⟩ <;> rcases hrun : p.run.run trace with ⟨_ | a, trace'⟩ <;>
    rw [hrun] at hx <;> cases hx
  · exact (hnone rfl).symm
  · exact hf pack rfl trace'

theorem erases_ret (vals : List Ref) (tail : Option Pack) (state : State Obj Store) :
    Erases (do
      let (pack, memory) ← build machine .gRetPackMem vals tail state.store state.memory
      return (pack, state.store, memory)) (result (machine.build .gRetPackMem vals tail state)) := by
  have hbuild := erases_build machine .gRetPackMem vals tail state
  apply erases_bind_build hbuild
  · intro hnone
    rw [result, hnone]
    rfl
  · intro pack hpack
    rw [result, hpack, hbuild.2]
    exact erases_pure _

/-- One more unit of fuel keeps the outcomes, for each of the three kinds of run. -/
theorem erases_run (fuel : ℕ) :
    (∀ call state, Erases (runCall machine fuel call state.store state.memory)
      (result (machine.runCall fuel call state))) ∧
    (∀ fcn vals tail state, Erases (enter machine fuel fcn vals tail state.store state.memory)
      (result (machine.enter fuel fcn vals tail state))) ∧
    (∀ body state, Erases (runBody machine fuel body state.store state.memory)
      (result (machine.runBody fuel body state))) := by
  induction fuel with
  | zero =>
    refine ⟨fun call state trace ↦ ?_, fun fcn vals tail state trace ↦ ?_,
      fun body state trace ↦ ?_⟩
    · rw [runCall, Machine.runCall]
      rfl
    · rw [enter, Machine.enter]
      rfl
    · rw [runBody, Machine.runBody]
      rfl
  | succ fuel ih =>
    obtain ⟨ihCall, ihEnter, ihBody⟩ := ih
    refine ⟨fun call state ↦ ?_, fun fcn vals tail state ↦ ?_, fun body state ↦ ?_⟩
    · obtain ⟨fcn, vals, tail⟩ := call
      cases tail with
      | none =>
        rw [runCall, Machine.runCall]
        exact ihEnter fcn vals none state
      | some inner =>
        rw [runCall, Machine.runCall]
        have hinner := ihCall inner state
        rcases hrun : machine.runCall fuel inner state with ⟨_ | tail, middle⟩ <;>
          rw [hrun] at hinner
        · exact erases_bind_result hinner (fun _ ↦ rfl) (by simp)
        · apply erases_bind_result hinner (by simp)
          rintro _ ⟨⟩
          exact ihEnter fcn vals (some tail) middle
    · rw [enter, Machine.enter]
      have hargs := erases_buildArgs machine vals tail state
      rcases hrun : machine.buildArgs vals tail state with ⟨_ | args, middle⟩ <;>
        rw [hrun] at hargs
      · exact erases_bind_build hargs (fun _ ↦ rfl) (by simp)
      · apply erases_bind_build hargs (by simp)
        rintro _ ⟨⟩
        have hstore : middle.store = state.store := hargs.2
        rw [← hstore]
        cases hcode : machine.code (machine.load fcn middle.store) with
        | builtin effect =>
          simp only [hcode]
          exact erases_pure _
        | packFunc params body =>
          simp only [hcode]
          exact ihBody _ middle
    · cases body with
      | ret vals tail =>
        cases tail with
        | none =>
          rw [runBody, Machine.runBody]
          exact erases_ret machine vals none state
        | some call =>
          rw [runBody, Machine.runBody]
          have hinner := ihCall call state
          rcases hrun : machine.runCall fuel call state with ⟨_ | tail, middle⟩ <;>
            rw [hrun] at hinner
          · exact erases_bind_result hinner (fun _ ↦ rfl) (by simp)
          · apply erases_bind_result hinner (by simp)
            rintro _ ⟨⟩
            exact erases_ret machine vals (some tail) middle
      | callUnpack call n rest =>
        rw [runBody, Machine.runBody]
        have hinner := ihCall call state
        rcases hrun : machine.runCall fuel call state with ⟨_ | pack, middle⟩ <;>
          rw [hrun] at hinner
        · exact erases_bind_result hinner (fun _ ↦ rfl) (by simp)
        · apply erases_bind_result hinner (by simp)
          rintro _ ⟨⟩
          exact ihBody _ middle
      | straight op rest =>
        rw [runBody, Machine.runBody]
        exact ihBody _ { state with store := op state.store }

/-- The record changes nothing: the runs are those of `PackMachine`. -/
theorem runBody_erases (fuel : ℕ) (body : Body Obj Ref Store) (state : State Obj Store) :
    ((runBody machine fuel body state.store state.memory).run.run []).1 =
      result (machine.runBody fuel body state) :=
  (erases_run machine fuel).2.2 body state []

end Erasure

end DeclarativeMlir.Lua.PackWrites
