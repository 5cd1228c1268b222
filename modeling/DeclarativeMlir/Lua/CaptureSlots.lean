import DeclarativeMlir.Lua.ClosureConversion

/-!
# Capture arrays

A `luaopt.pack_func` becomes a function and a closure over a capture array. The array is filled
slot by slot where the closure is made and read slot by slot where the function is entered.
-/

namespace DeclarativeMlir.Lua

/-! ## The rewrites -/

section

variable {ι : Type} [Naming ι]

def ConstantOp (id : ι) (value : Attr) : Op ι := .mk id .constant value [] 1 [] []

/-- The ops in place of a `luaopt.pack_func`, and the `FuncOp` that takes its body. -/
def lowerFunctionDef (name : String) : Op ι → Option (List (Op ι) × String × Region ι)
  | .mk id .pack_func _ captures _ _ [region] =>
    some ([
      create (Naming.new id 2) .make_capture captures 1,
      ConstantOp (Naming.new id 3) (.str name),
      create id .make_fcn [.res (Naming.new id 3) 0, .res (Naming.new id 2) 0] 1],
      name, region)
  | _ => none

/-- `luac.add_capture` of the value at position `i` -/
def addCapture (id cap : ι) (val : Value ι) (i : ℕ) : List (Op ι) :=
  [ConstantOp (Naming.new id (2 + 2 * i)) (.int i),
    create (Naming.new id (3 + 2 * i)) .add_capture
      [.res cap 0, val, .res (Naming.new id (2 + 2 * i)) 0] 0]

/-- The created ops and the value in place of the capture. -/
def expandMakeCapture : Op ι → Option (List (Op ι) × Value ι)
  | .mk id .make_capture _ vals _ _ _ =>
    let sz : ι := Naming.new id 0
    let cap : ι := Naming.new id 1
    some (ConstantOp sz (.int vals.length) :: create cap .new_capture [.res sz 0] 1 ::
      vals.zipIdx.flatMap fun (val, i) ↦ addCapture id cap val i, .res cap 0)
  | _ => none

/-- `luac.get_capture` of slot `i` -/
def getCapture (id : ι) (capture : Value ι) (i : ℕ) : List (Op ι) :=
  [ConstantOp (Naming.new id (2 * i)) (.int i),
    create (Naming.new id (2 * i + 1)) .get_capture [capture, .res (Naming.new id (2 * i)) 0] 1]

/-- The created ops and the values in place of the results. -/
def expandGetCaptures : Op ι → Option (List (Op ι) × List (Value ι))
  | .mk id .get_captures _ [capture] numResults _ _ =>
    some ((List.range numResults).flatMap (getCapture id capture),
      (List.range numResults).map fun i ↦ .res (Naming.new id (2 * i + 1)) 0)
  | _ => none

end

/-! ## Execution -/

/-- What the values hold, and the capture arrays on the heap. -/
structure CaptureState (C : Type) where
  ints : Value OpId → ℤ
  cells : Value OpId → C
  arrays : Value OpId → ℕ
  memory : ℕ → ℤ → C
  next : ℕ

namespace CaptureState

variable {C : Type}

/-- One op on captures; every other op leaves them alone. -/
def exec (s : CaptureState C) : Op OpId → CaptureState C
  | .mk id .constant (.int n) _ _ _ _ => { s with ints := Function.update s.ints (.res id 0) n }
  | .mk id .new_capture _ _ _ _ _ =>
    { s with arrays := Function.update s.arrays (.res id 0) s.next, next := s.next + 1 }
  | .mk _ .add_capture _ [capture, val, idx] _ _ _ =>
    { s with
      memory := Function.update s.memory (s.arrays capture)
        (Function.update (s.memory (s.arrays capture)) (s.ints idx) (s.cells val)) }
  | .mk id .get_capture _ [capture, idx] _ _ _ =>
    { s with
      cells := Function.update s.cells (.res id 0) (s.memory (s.arrays capture) (s.ints idx)) }
  | _ => s

def run (s : CaptureState C) (ops : List (Op OpId)) : CaptureState C := ops.foldl exec s

theorem run_append (s : CaptureState C) (ops ops' : List (Op OpId)) :
    s.run (ops ++ ops') = (s.run ops).run ops' := List.foldl_append

/-- The array `capture` after slot `i` is filled. -/
theorem run_addCapture (s : CaptureState C) (id cap : OpId) (val : Value OpId) (i : ℕ) :
    s.run (addCapture id cap val i) =
      { s with
        ints := Function.update s.ints (.res (.new id (2 + 2 * i)) 0) i
        memory := Function.update s.memory (s.arrays (.res cap 0))
          (Function.update (s.memory (s.arrays (.res cap 0))) i (s.cells val)) } := by
  simp [run, addCapture, exec, ConstantOp, create, Naming.new]

theorem run_getCapture (s : CaptureState C) (id : OpId) (capture : Value OpId) (i : ℕ) :
    s.run (getCapture id capture i) =
      { s with
        ints := Function.update s.ints (.res (.new id (2 * i)) 0) i
        cells := Function.update s.cells (.res (.new id (2 * i + 1)) 0)
          (s.memory (s.arrays capture) i) } := by
  simp [run, getCapture, exec, ConstantOp, create, Naming.new]

/-- Filling the slots from `start` on. -/
theorem run_addCaptures (s : CaptureState C) (id cap : OpId) (vals : List (Value OpId))
    (start : ℕ) :
    let s' := s.run ((vals.zipIdx start).flatMap fun (val, i) ↦ addCapture id cap val i)
    s'.arrays = s.arrays ∧ s'.cells = s.cells ∧
      (∀ slot : ℕ, s'.memory (s.arrays (.res cap 0)) slot =
        if slot < start then s.memory (s.arrays (.res cap 0)) slot
        else ((vals[slot - start]?).map s.cells).getD (s.memory (s.arrays (.res cap 0)) slot)) ∧
      ∀ address ≠ s.arrays (.res cap 0), s'.memory address = s.memory address := by
  induction vals generalizing s start with
  | nil => simp [run]
  | cons val vals ih =>
    intro s'
    have hs' : s' = (s.run (addCapture id cap val start)).run
        ((vals.zipIdx (start + 1)).flatMap fun (val, i) ↦ addCapture id cap val i) := by
      rw [← run_append]
      rfl
    obtain ⟨harrays, hcells, hslots, hothers⟩ := ih (s.run (addCapture id cap val start)) (start + 1)
    rw [← hs'] at harrays hcells hslots hothers
    rw [run_addCapture] at harrays hcells hslots hothers
    refine ⟨harrays, hcells, fun slot ↦ ?_, fun address haddress ↦ ?_⟩
    · rw [hslots]
      simp only [Function.update_self]
      rcases Nat.lt_trichotomy slot start with hlt | rfl | hgt
      · have hne : (slot : ℤ) ≠ start := by omega
        rw [if_pos (by omega), if_pos hlt, Function.update_of_ne hne]
      · simp
      · have hne : (slot : ℤ) ≠ start := by omega
        obtain ⟨k, rfl⟩ := Nat.exists_eq_add_of_lt hgt
        have hsub : start + k + 1 - start = k + 1 := by omega
        have hsub' : start + k + 1 - (start + 1) = k := by omega
        rw [if_neg (by omega), if_neg (by omega), Function.update_of_ne hne, hsub, hsub',
          List.getElem?_cons_succ]
    · rw [hothers address haddress]
      exact Function.update_of_ne haddress _ _

/-- Making a capture stores the cell of its `i`-th value in slot `i`. -/
theorem run_expandMakeCapture (s : CaptureState C) {id : OpId} {vals : List (Value OpId)}
    {ops : List (Op OpId)} {capture : Value OpId}
    (hops : expandMakeCapture (create id .make_capture vals 1) = some (ops, capture)) (i : ℕ)
    {val : Value OpId} (hval : vals[i]? = some val) :
    (s.run ops).memory ((s.run ops).arrays capture) i = s.cells val := by
  simp only [expandMakeCapture, create, Option.some.injEq, Prod.mk.injEq] at hops
  obtain ⟨rfl, rfl⟩ := hops
  let s₁ := s.run [ConstantOp (.new id 0) (.int vals.length),
    create (.new id 1) .new_capture [.res (.new id 0) 0] 1]
  have hcells : s₁.cells = s.cells := by
    simp [s₁, run, exec, ConstantOp, create]
  obtain ⟨harrays, -, hslots, -⟩ := run_addCaptures s₁ id (.new id 1) vals 0
  have hslot := hslots i
  rw [if_neg (Nat.not_lt_zero i), Nat.sub_zero, hval, hcells, Option.map_some,
    Option.getD_some] at hslot
  rw [← harrays] at hslot
  exact hslot

/-- Reading the slots below `n`. -/
theorem run_getCaptures (s : CaptureState C) (id : OpId) (capture : Value OpId) (n : ℕ) :
    let s' := s.run ((List.range n).flatMap (getCapture id capture))
    s'.arrays = s.arrays ∧ s'.memory = s.memory ∧
      ∀ i < n, s'.cells (.res (.new id (2 * i + 1)) 0) = s.memory (s.arrays capture) i := by
  induction n with
  | zero => simp [run]
  | succ n ih =>
    intro s'
    have hs' : s' = (s.run ((List.range n).flatMap (getCapture id capture))).run
        (getCapture id capture n) := by
      rw [← run_append, ← List.flatMap_singleton (getCapture id capture) n, ← List.flatMap_append,
        ← List.range_succ]
    obtain ⟨harrays, hmemory, hcells⟩ := ih
    rw [run_getCapture, harrays, hmemory] at hs'
    rw [hs']
    refine ⟨rfl, rfl, fun i hi ↦ ?_⟩
    rcases Nat.lt_succ_iff_lt_or_eq.mp hi with hlt | rfl
    · have hne : Value.res (OpId.new id (2 * i + 1)) 0 ≠ .res (.new id (2 * n + 1)) 0 := by
        simp
        omega
      simp only [Function.update_of_ne hne]
      exact hcells i hlt
    · simp only [Function.update_self]

/-- The `i`-th value read from a capture is the cell in slot `i`. -/
theorem run_expandGetCaptures (s : CaptureState C) {id : OpId} {capture : Value OpId} {n : ℕ}
    {ops : List (Op OpId)} {vals : List (Value OpId)}
    (hops : expandGetCaptures (create id .get_captures [capture] n) = some (ops, vals)) (i : ℕ)
    {val : Value OpId} (hval : vals[i]? = some val) :
    (s.run ops).cells val = s.memory (s.arrays capture) i := by
  simp only [expandGetCaptures, create, Option.some.injEq, Prod.mk.injEq] at hops
  obtain ⟨rfl, rfl⟩ := hops
  obtain ⟨-, -, hcells⟩ := run_getCaptures s id capture n
  rw [List.getElem?_map, Option.map_eq_some_iff] at hval
  obtain ⟨j, hj, rfl⟩ := hval
  obtain ⟨hlt, rfl⟩ := List.getElem?_eq_some_iff.mp hj
  rw [List.getElem_range]
  exact hcells i (by simpa using hlt)

/-- What is stored for the values of a capture is read back, in order. -/
theorem run_captures (s t : CaptureState C) {make get : OpId} {captures vals : List (Value OpId)}
    {made got : List (Op OpId)} {capture arg : Value OpId}
    (hmake : expandMakeCapture (create make .make_capture captures 1) = some (made, capture))
    (hget : expandGetCaptures (create get .get_captures [arg] captures.length) =
      some (got, vals))
    (harray : t.memory (t.arrays arg) = (s.run made).memory ((s.run made).arrays capture)) :
    vals.map (t.run got).cells = captures.map s.cells := by
  have hlength : vals.length = captures.length := by
    simp only [expandGetCaptures, create, Option.some.injEq, Prod.mk.injEq] at hget
    rw [← hget.2, List.length_map, List.length_range]
  apply List.ext_getElem
  · rw [List.length_map, List.length_map, hlength]
  · intro i hi hi'
    rw [List.length_map] at hi hi'
    rw [List.getElem_map, List.getElem_map]
    calc
      (t.run got).cells vals[i] = t.memory (t.arrays arg) i :=
        run_expandGetCaptures t hget i (List.getElem?_eq_getElem hi)
      _ = (s.run made).memory ((s.run made).arrays capture) i := by rw [harray]
      _ = s.cells captures[i] := run_expandMakeCapture s hmake i (List.getElem?_eq_getElem hi')

end CaptureState

end DeclarativeMlir.Lua
