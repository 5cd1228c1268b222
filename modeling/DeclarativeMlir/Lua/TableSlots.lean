import DeclarativeMlir.Library.PlacedMaps
import DeclarativeMlir.Lua.CellMachine

/-!
# Tables

A table is an array of sixteen objects that nothing initialises. Its slots are chosen by the field
`u` of the key, whatever the type of the key is, or by the number that the key is, where that is
known to the compiler. In Lua a table maps keys to objects and holds `nil` at first.
-/

namespace DeclarativeMlir.Lua.Cells

open PlacedMaps

/-! ## Numbers -/

/-- A `double`, by its bits. -/
abbrev Double := BitVec 64

namespace Double

def exponent (num : Double) : ℕ := (num.extractLsb' 52 11).toNat

def mantissa (num : Double) : ℕ := (num.extractLsb' 0 52).toNat

def isFinite (num : Double) : Bool := num.exponent != 2047

def isNaN (num : Double) : Bool := num.exponent == 2047 && num.mantissa != 0

/-- The absolute value of a finite number is `significand * 2 ^ (max exponent 1 - 1075)`. -/
def significand (num : Double) : ℕ :=
  if num.exponent = 0 then num.mantissa else 2 ^ 52 + num.mantissa

/-- The integer that is equal to a number. -/
def integer? (num : Double) : Option ℤ :=
  let scale := max num.exponent 1
  let magnitude :=
    if !num.isFinite then none
    else if 1075 ≤ scale then some (num.significand * 2 ^ (scale - 1075))
    else if num.significand % 2 ^ (1075 - scale) = 0 then
      some (num.significand / 2 ^ (1075 - scale))
    else none
  magnitude.map fun n ↦ if num.msb then -(n : ℤ) else n

end Double

/-- The attribute of a `lua.number`, an `F64Attr` or an `I64Attr`. -/
inductive NumberAttr where
  | real (num : Double)
  | int (value : BitVec 64)
  deriving DecidableEq, Repr

namespace NumberAttr

/-- The object that `luaNumberWrap` makes. -/
def wrap : NumberAttr → TObject
  | real num => ⟨.num, num⟩
  | int value => ⟨.int, value⟩

/-- `int(raw)` does not raise an error. -/
def isFinite : NumberAttr → Bool
  | real num => num.isFinite
  | int _ => true

/-- `int(raw)`, if that is equal to `raw`. -/
def integer? : NumberAttr → Option ℤ
  | real num => num.integer?
  | int value => some value.toInt

end NumberAttr

/-! ## Table operations -/

/-- What defines a key: a `luaopt.const_number`, or another op that has made an object. -/
inductive KeyOp where
  | const_number (value : NumberAttr)
  | other (obj : TObject)
  deriving DecidableEq, Repr

def KeyOp.obj : KeyOp → TObject
  | const_number value => value.wrap
  | other obj => obj

structure TableKey where
  tbl : ℕ
  key : KeyOp
  deriving DecidableEq, Repr

/-- The ops on tables. `val` is the number of an object. -/
inductive TableOp where
  | table_get (entry : TableKey)
  | table_set (entry : TableKey) (val : ℕ)
  | table_get_prealloc (tbl : ℕ) (iv : BitVec 64)
  | table_set_prealloc (tbl : ℕ) (iv : BitVec 64) (val : ℕ)

/-- `luaopt.table_prealloc` -/
def tablePrealloc : ℕ := 16

/-- The index of a constant key that has a slot. Where `int` raises an error there is no result. -/
def preallocValid : KeyOp → Option (Option (BitVec 64))
  | .const_number value =>
    if value.isFinite then
      some (value.integer?.bind fun ivVal ↦
        if ivVal ≤ 0 ∨ (tablePrealloc : ℤ) < ivVal then none
        else some (BitVec.ofInt 64 (ivVal - 1)))
    else none
  | .other _ => some none

def tableGetPrealloc (entry : TableKey) : Option TableOp :=
  (preallocValid entry.key).map fun
    | some iv => .table_get_prealloc entry.tbl iv
    | none => .table_get entry

def tableSetPrealloc (entry : TableKey) (val : ℕ) : Option TableOp :=
  (preallocValid entry.key).map fun
    | some iv => .table_set_prealloc entry.tbl iv val
    | none => .table_set entry val

def applyPattern : TableOp → Option TableOp
  | .table_get entry => tableGetPrealloc entry
  | .table_set entry val => tableSetPrealloc entry val
  | op => some op

def applyOpts (ops : List TableOp) : Option (List TableOp) := ops.mapM applyPattern

/-- The arrays `prealloc` of the tables. -/
abbrev TableMemory := ℕ → Fin tablePrealloc → TObject

def TableMemory.set (memory : TableMemory) (tbl : ℕ) (slot : Fin tablePrealloc) (obj : TObject) :
    TableMemory :=
  fun tbl' slot' ↦ if tbl' = tbl ∧ slot' = slot then obj else memory tbl' slot'

/-- The element with the index `iv`. There is none outside of the array. -/
def elPtr (iv : BitVec 64) : Option (Fin tablePrealloc) :=
  if h : iv.toNat < tablePrealloc then some ⟨iv.toNat, h⟩ else none

/-- What `convertLuaTableGet` and `convertLuaTableSet` compute from the key. -/
def keySlot (key : KeyOp) : Option (Fin tablePrealloc) := elPtr (key.obj.u + BitVec.ofInt 64 (-1))

/-- An op after its conversion to LLVM, with what it loads. -/
def TableOp.exec (vals : ℕ → TObject) (memory : TableMemory) :
    TableOp → Option (TableMemory × List TObject)
  | .table_get entry => (keySlot entry.key).map fun slot ↦ (memory, [memory entry.tbl slot])
  | .table_set entry val => (keySlot entry.key).map fun slot ↦ (memory.set entry.tbl slot (vals val), [])
  | .table_get_prealloc tbl iv => (elPtr iv).map fun slot ↦ (memory, [memory tbl slot])
  | .table_set_prealloc tbl iv val =>
    (elPtr iv).map fun slot ↦ (memory.set tbl slot (vals val), [])

/-- What the ops of a run load. -/
def runOps (vals : ℕ → TObject) : TableMemory → List TableOp → Option (List TObject)
  | _, [] => some []
  | memory, op :: ops => do
    let (memory, loaded) ← op.exec vals memory
    let rest ← runOps vals memory ops
    some (loaded ++ rest)

/-- The accesses of a program. -/
def sourceOp : Access TableKey → TableOp
  | .get entry => .table_get entry
  | .set entry val => .table_set entry val

/-- The accesses of a program, compiled without `applyOpts`. -/
def runPlain (vals : ℕ → TObject) (memory : TableMemory) (log : List (Access TableKey)) :
    Option (List TObject) :=
  runOps vals memory (log.map sourceOp)

/-- The accesses of a program as they are compiled. -/
def runCompiled (vals : ℕ → TObject) (memory : TableMemory) (log : List (Access TableKey)) :
    Option (List TObject) :=
  (applyOpts (log.map sourceOp)).bind (runOps vals memory)

/-! ## Tables of Lua -/

/-- A key of a Lua table. A number that is an integer is the same key as the integer. -/
inductive LuaKey where
  | int (n : ℤ)
  | real (num : Double)
  | bool (b : Bool)
  | str (text : String)
  | tbl (impl : BitVec 64)
  | fcn (impl : BitVec 64)
  deriving DecidableEq

/-- The key that an object is. `nil` and NaN are none. -/
def luaKey (content : BitVec 64 → String) (obj : TObject) : Option LuaKey :=
  match obj.type with
  | .nil => none
  | .bool => some (.bool (obj.u.getLsbD 0))
  | .num =>
    if Double.isNaN obj.u then none
    else match Double.integer? obj.u with
      | some n => if -2 ^ 63 ≤ n ∧ n < 2 ^ 63 then some (.int n) else some (.real obj.u)
      | none => some (.real obj.u)
  | .str => some (.str (content obj.u))
  | .tbl => some (.tbl obj.u)
  | .fcn => some (.fcn obj.u)
  | .int => some (.int obj.u.toInt)

abbrev LuaTables := ℕ → LuaKey → TObject

/-- A table has no entry for a key that is none, and storing one is an error. -/
def runLua (content : BitVec 64 → String) (vals : ℕ → TObject) :
    LuaTables → List (Access TableKey) → Option (List TObject)
  | _, [] => some []
  | tables, .get entry :: log => do
    let rest ← runLua content vals tables log
    some (((luaKey content entry.key.obj).elim .nil (tables entry.tbl)) :: rest)
  | tables, .set entry val :: log => do
    let key ← luaKey content entry.key.obj
    runLua content vals (fun tbl' key' ↦
      if tbl' = entry.tbl ∧ key' = key then vals val else tables tbl' key') log

/-! ## Slots -/

/-- The slot that an access with this key uses as it is compiled. -/
def compiledSlot (key : KeyOp) : Option (Fin tablePrealloc) :=
  (preallocValid key).bind fun
    | some iv => elPtr iv
    | none => keySlot key

/-- An access where `slot` chooses the slot. -/
def stepSlot (slot : KeyOp → Option (Fin tablePrealloc)) (vals : ℕ → TObject)
    (memory : TableMemory) : Access TableKey → Option (TableMemory × List TObject)
  | .get entry => (slot entry.key).map fun slot' ↦ (memory, [memory entry.tbl slot'])
  | .set entry val => (slot entry.key).map fun slot' ↦ (memory.set entry.tbl slot' (vals val), [])

def runSlots (slot : KeyOp → Option (Fin tablePrealloc)) (vals : ℕ → TObject) :
    TableMemory → List (Access TableKey) → Option (List TObject)
  | _, [] => some []
  | memory, access :: log =>
    (stepSlot slot vals memory access).bind fun step ↦
      (runSlots slot vals step.1 log).map fun rest ↦ step.2 ++ rest

variable {vals : ℕ → TObject} {slot : KeyOp → Option (Fin tablePrealloc)}

theorem runOps_cons (memory : TableMemory) (op : TableOp) (ops : List TableOp) :
    runOps vals memory (op :: ops) = (op.exec vals memory).bind fun step ↦
      (runOps vals step.1 ops).map fun rest ↦ step.2 ++ rest := by
  rw [runOps, Option.bind_eq_bind]
  congr 1
  funext step
  rw [Option.map_eq_bind]
  rfl

theorem exec_sourceOp (memory : TableMemory) (access : Access TableKey) :
    (sourceOp access).exec vals memory = stepSlot keySlot vals memory access := by
  cases access with
  | get entry => rw [sourceOp, TableOp.exec, stepSlot]
  | set entry val => rw [sourceOp, TableOp.exec, stepSlot]

theorem exec_applyPattern (memory : TableMemory) (access : Access TableKey) :
    (applyPattern (sourceOp access)).bind (TableOp.exec vals memory) =
      stepSlot compiledSlot vals memory access := by
  cases access with
  | get entry =>
    rw [sourceOp, applyPattern, tableGetPrealloc, stepSlot, compiledSlot]
    cases preallocValid entry.key with
    | none => rw [Option.map_none, Option.bind_none, Option.bind_none, Option.map_none]
    | some valid =>
      rw [Option.map_some, Option.bind_some, Option.bind_some]
      cases valid with
      | none => dsimp only; rw [TableOp.exec]
      | some iv => dsimp only; rw [TableOp.exec]
  | set entry val =>
    rw [sourceOp, applyPattern, tableSetPrealloc, stepSlot, compiledSlot]
    cases preallocValid entry.key with
    | none => rw [Option.map_none, Option.bind_none, Option.bind_none, Option.map_none]
    | some valid =>
      rw [Option.map_some, Option.bind_some, Option.bind_some]
      cases valid with
      | none => dsimp only; rw [TableOp.exec]
      | some iv => dsimp only; rw [TableOp.exec]

theorem runPlain_eq (memory : TableMemory) (log : List (Access TableKey)) :
    runPlain vals memory log = runSlots keySlot vals memory log := by
  unfold runPlain
  induction log generalizing memory with
  | nil => rfl
  | cons access log ih =>
    rw [List.map_cons, runOps_cons, runSlots, exec_sourceOp]
    simp only [ih]

theorem runCompiled_eq (memory : TableMemory) (log : List (Access TableKey)) :
    runCompiled vals memory log = runSlots compiledSlot vals memory log := by
  unfold runCompiled applyOpts
  induction log generalizing memory with
  | nil => rfl
  | cons access log ih =>
    rw [List.map_cons, List.mapM_cons, runSlots, ← exec_applyPattern]
    simp only [← ih, Option.bind_eq_bind, Option.bind_assoc, Option.bind_some, Option.pure_def,
      runOps_cons]
    cases applyPattern (sourceOp access) with
    | none => rfl
    | some op =>
      simp only [Option.bind_some]
      cases (log.map sourceOp).mapM applyPattern with
      | none => cases TableOp.exec vals memory op <;> rfl
      | some ops => rfl

/-- The arrays of the tables, as places that may also be outside of an array. -/
def arrays (initial : ℕ × Option (Fin tablePrealloc) → TObject) : TableMemory :=
  fun tbl slot ↦ initial (tbl, some slot)

def slotPlace (slot : KeyOp → Option (Fin tablePrealloc)) (entry : TableKey) :
    ℕ × Option (Fin tablePrealloc) :=
  (entry.tbl, slot entry.key)

theorem arrays_update (initial : ℕ × Option (Fin tablePrealloc) → TObject) (tbl : ℕ)
    (slot' : Fin tablePrealloc) (obj : TObject) :
    arrays (Function.update initial (tbl, some slot') obj) =
      (arrays initial).set tbl slot' obj := by
  funext tbl' slot''
  rw [arrays, TableMemory.set, Function.update_apply]
  simp [arrays]

theorem runSlots_eq_some_iff (initial : ℕ × Option (Fin tablePrealloc) → TObject)
    (log : List (Access TableKey)) (results : List TObject) :
    runSlots slot vals (arrays initial) log = some results ↔
      (∀ access ∈ log, slot access.key.key ≠ none) ∧
        reads (slotPlace slot) vals initial log = results := by
  induction log generalizing initial results with
  | nil => simp [runSlots, reads]
  | cons access log ih =>
    rw [runSlots, List.forall_mem_cons]
    cases access with
    | get entry =>
      rw [stepSlot, reads, Access.key]
      cases hslot : slot entry.key with
      | none => simp
      | some slot' =>
        simp only [Option.map_some, Option.bind_some, Option.map_eq_some_iff, ih]
        simp [slotPlace, hslot, arrays]
    | set entry val =>
      rw [stepSlot, reads, Access.key]
      cases hslot : slot entry.key with
      | none => simp
      | some slot' =>
        simp only [Option.map_some, Option.bind_some, ← arrays_update, Option.map_eq_some_iff, ih]
        simp [slotPlace, hslot]

/-! ## Entries of Lua tables -/

/-- The entries of the tables, as places that may also be for a key that is none. -/
def entries (initial : ℕ × Option LuaKey → TObject) : LuaTables :=
  fun tbl key ↦ initial (tbl, some key)

def luaPlace (content : BitVec 64 → String) (entry : TableKey) : ℕ × Option LuaKey :=
  (entry.tbl, luaKey content entry.key.obj)

/-- What is stored under a key of a Lua table. -/
def StoresKey (content : BitVec 64 → String) : Access TableKey → Prop
  | .get _ => True
  | .set entry _ => luaKey content entry.key.obj ≠ none

theorem runLua_eq_some_iff (content : BitVec 64 → String) (initial : ℕ × Option LuaKey → TObject)
    (hnil : ∀ tbl, initial (tbl, none) = .nil) (log : List (Access TableKey))
    (results : List TObject) :
    runLua content vals (entries initial) log = some results ↔
      (∀ access ∈ log, StoresKey content access) ∧
        reads (luaPlace content) vals initial log = results := by
  induction log generalizing initial results with
  | nil => simp [runLua, reads]
  | cons access log ih =>
    rw [List.forall_mem_cons]
    cases access with
    | get entry =>
      have hget : (luaKey content entry.key.obj).elim .nil (entries initial entry.tbl) =
          initial (luaPlace content entry) := by
        rw [luaPlace]
        cases luaKey content entry.key.obj with
        | none => exact (hnil entry.tbl).symm
        | some key => rfl
      rw [runLua, reads, hget, Option.bind_eq_bind, Option.bind_eq_some_iff]
      simp only [ih initial hnil]
      simp [StoresKey]
    | set entry val =>
      rw [runLua, reads, luaPlace]
      cases hkey : luaKey content entry.key.obj with
      | none => simp [StoresKey, hkey]
      | some key =>
        have hupdate : (fun tbl' key' ↦ if tbl' = entry.tbl ∧ key' = key then vals val
            else entries initial tbl' key') =
              entries (Function.update initial (entry.tbl, some key) (vals val)) := by
          funext tbl' key'
          simp [entries, Function.update_apply]
        rw [Option.bind_eq_bind, Option.bind_some, hupdate, ih]
        · simp [StoresKey, hkey]
        · intro tbl
          rw [Function.update_of_ne (by simp), hnil]

/-- Every get finds the object that Lua finds, since the last set in the slot is the last set under
the key. -/
structure KeepsEntries (content : BitVec 64 → String) (log : List (Access TableKey)) : Prop where
  slots : ∀ access ∈ log, compiledSlot access.key.key ≠ none
  keys : ∀ access ∈ log, StoresKey content access
  gets : ∀ before entry after, log = before ++ .get entry :: after →
    ∃ val, lastSet (slotPlace compiledSlot) before entry = some val ∧
      lastSet (luaPlace content) before entry = some val

theorem arrays_surjective : Function.Surjective arrays := by
  intro memory
  exact ⟨fun place ↦ place.2.elim .nil (memory place.1), rfl⟩

/-- Whatever is stored, and whatever the memory of the tables holds at first, a program loads what
it loads in Lua, exactly if every access has a slot and every get finds the last set of its key. -/
theorem tables_agree_iff (content : BitVec 64 → String) (log : List (Access TableKey)) :
    (∀ vals memory, ∃ results, runCompiled vals memory log = some results ∧
        runLua content vals (fun _ _ ↦ .nil) log = some results) ↔ KeepsEntries content log := by
  have hne : TObject.ofInt 1 ≠ .nil := by decide
  have hreads := @reads_eq_always_iff _ _ _ _ _ _ (slotPlace compiledSlot) (luaPlace content)
    TObject.nil (TObject.ofInt 1) hne log
  have hlua : ∀ vals results, runLua content vals (fun _ _ ↦ TObject.nil) log = some results ↔
      (∀ access ∈ log, StoresKey content access) ∧
        reads (luaPlace content) vals (fun _ ↦ TObject.nil) log = results :=
    fun vals results ↦ runLua_eq_some_iff content (fun _ ↦ TObject.nil) (fun _ ↦ rfl) log results
  constructor
  · intro h
    have hboth : ∀ vals initial, (∀ access ∈ log, compiledSlot access.key.key ≠ none) ∧
        (∀ access ∈ log, StoresKey content access) ∧
          reads (slotPlace compiledSlot) vals initial log =
            reads (luaPlace content) vals (fun _ ↦ TObject.nil) log := by
      intro vals initial
      obtain ⟨results, hrun, hres⟩ := h vals (arrays initial)
      rw [runCompiled_eq, runSlots_eq_some_iff] at hrun
      rw [hlua] at hres
      exact ⟨hrun.1, hres.1, hrun.2.trans hres.2.symm⟩
    have hfirst := hboth (fun _ ↦ TObject.nil) fun _ ↦ TObject.nil
    exact ⟨hfirst.1, hfirst.2.1, hreads.mp fun vals initial ↦ (hboth vals initial).2.2⟩
  · intro h vals memory
    obtain ⟨initial, rfl⟩ := arrays_surjective memory
    refine ⟨_, ?_, (hlua vals _).mpr ⟨h.keys, rfl⟩⟩
    rw [runCompiled_eq, runSlots_eq_some_iff]
    exact ⟨h.slots, hreads.mpr h.gets vals initial⟩

/-! ## Constant keys -/

theorem elPtr_eq_some_iff {iv : BitVec 64} {slot' : Fin tablePrealloc} :
    elPtr iv = some slot' ↔ iv.toNat = slot' := by
  rw [elPtr]
  split
  · rw [Option.some.injEq, Fin.ext_iff]
  · rename_i h
    exact ⟨fun h ↦ absurd h (Option.some_ne_none _).symm, fun heq ↦ absurd (heq ▸ slot'.isLt) h⟩

/-- A constant that is an integer but not written as one. -/
def KeyOp.IsIntegralReal : KeyOp → Prop
  | .const_number (.real num) => num.integer? ≠ none
  | _ => False

theorem toNat_of_keySlot {key : KeyOp} {slot' : Fin tablePrealloc}
    (h : keySlot key = some slot') : key.obj.u.toNat = slot' + 1 := by
  have hlt : (slot' : ℕ) < 16 := slot'.isLt
  have hu := key.obj.u.isLt
  rw [keySlot, elPtr_eq_some_iff, BitVec.toNat_add, BitVec.toNat_ofInt] at h
  omega

/-- The numbers with the bits of a small integer are much smaller than one. -/
theorem integer?_of_small {num : Double} (hpos : 0 < num.toNat) (hle : num.toNat ≤ 16) :
    num.isFinite = true ∧ num.integer? = none := by
  have hall : ∀ n ∈ List.range' 1 16,
      Double.isFinite (BitVec.ofNat 64 n) = true ∧ Double.integer? (BitVec.ofNat 64 n) = none := by
    decide +kernel
  have hmem : num.toNat ∈ List.range' 1 16 := by
    rw [List.mem_range'_1]
    omega
  have hnum := hall num.toNat hmem
  rwa [BitVec.ofNat_toNat, BitVec.setWidth_eq] at hnum

/-- `applyOpts` changes the slot only of a constant that is an integer but not written as one. -/
theorem keySlot_eq_some_iff {key : KeyOp} {slot' : Fin tablePrealloc} :
    keySlot key = some slot' ↔ compiledSlot key = some slot' ∧ ¬ key.IsIntegralReal := by
  cases key with
  | other obj =>
    have hslot : compiledSlot (.other obj) = keySlot (.other obj) := by
      rw [compiledSlot, preallocValid, Option.bind_some]
    rw [hslot]
    exact ⟨fun h ↦ ⟨h, fun h ↦ h⟩, fun h ↦ h.1⟩
  | const_number value =>
    cases value with
    | int value =>
      have hslot : compiledSlot (.const_number (.int value)) =
          keySlot (.const_number (.int value)) := by
        rw [compiledSlot, preallocValid, NumberAttr.isFinite, if_pos rfl, Option.bind_some,
          NumberAttr.integer?, Option.bind_some]
        split_ifs with hvalid
        · rfl
        · dsimp only
          rw [keySlot, Int.sub_eq_add_neg, BitVec.ofInt_add, BitVec.ofInt_toInt]
          rfl
      rw [hslot]
      exact ⟨fun h ↦ ⟨h, fun h ↦ h⟩, fun h ↦ h.1⟩
    | real num =>
      have hplain : num.isFinite = true → num.integer? = none →
          compiledSlot (.const_number (.real num)) = keySlot (.const_number (.real num)) := by
        intro hfinite hinteger
        rw [compiledSlot, preallocValid, NumberAttr.isFinite, if_pos hfinite, Option.bind_some,
          NumberAttr.integer?, hinteger, Option.bind_none]
      constructor
      · intro h
        have hlt : (slot' : ℕ) < 16 := slot'.isLt
        have hnat : num.toNat = slot' + 1 := toNat_of_keySlot h
        obtain ⟨hfinite, hinteger⟩ := @integer?_of_small num (by omega) (by omega)
        rw [hplain hfinite hinteger]
        exact ⟨h, fun hreal ↦ hreal hinteger⟩
      · rintro ⟨h, hreal⟩
        have hinteger : num.integer? = none := not_not.mp hreal
        by_cases hfinite : num.isFinite = true
        · rwa [← hplain hfinite hinteger]
        · rw [compiledSlot, preallocValid, NumberAttr.isFinite, if_neg hfinite] at h
          cases h

theorem stepSlot_keySlot_iff {memory : TableMemory} {access : Access TableKey}
    {step : TableMemory × List TObject} :
    stepSlot keySlot vals memory access = some step ↔
      stepSlot compiledSlot vals memory access = some step ∧ ¬ access.key.key.IsIntegralReal := by
  cases access with
  | get entry =>
    simp only [stepSlot, Option.map_eq_some_iff, keySlot_eq_some_iff, Access.key]
    exact ⟨fun ⟨slot', h, hstep⟩ ↦ ⟨⟨slot', h.1, hstep⟩, h.2⟩,
      fun ⟨⟨slot', h, hstep⟩, hreal⟩ ↦ ⟨slot', ⟨h, hreal⟩, hstep⟩⟩
  | set entry val =>
    simp only [stepSlot, Option.map_eq_some_iff, keySlot_eq_some_iff, Access.key]
    exact ⟨fun ⟨slot', h, hstep⟩ ↦ ⟨⟨slot', h.1, hstep⟩, h.2⟩,
      fun ⟨⟨slot', h, hstep⟩, hreal⟩ ↦ ⟨slot', ⟨h, hreal⟩, hstep⟩⟩

/-- Without `applyOpts` a program loads the same, but fewer keys have a slot. -/
theorem runPlain_eq_some_iff (vals : ℕ → TObject) (memory : TableMemory)
    (log : List (Access TableKey)) (results : List TObject) :
    runPlain vals memory log = some results ↔
      runCompiled vals memory log = some results ∧
        ∀ access ∈ log, ¬ access.key.key.IsIntegralReal := by
  rw [runPlain_eq, runCompiled_eq]
  induction log generalizing memory results with
  | nil => simp [runSlots]
  | cons access log ih =>
    rw [List.forall_mem_cons, runSlots, runSlots, Option.bind_eq_some_iff, Option.bind_eq_some_iff]
    simp only [Option.map_eq_some_iff, ih, stepSlot_keySlot_iff]
    constructor
    · rintro ⟨step, ⟨hstep, hreal⟩, rest, ⟨hrest, hreals⟩, rfl⟩
      exact ⟨⟨step, hstep, rest, hrest, rfl⟩, hreal, hreals⟩
    · rintro ⟨⟨step, hstep, rest, hrest, rfl⟩, hreal, hreals⟩
      exact ⟨step, ⟨hstep, hreal⟩, rest, ⟨hrest, hreals⟩, rfl⟩

end DeclarativeMlir.Lua.Cells
