import DeclarativeMlir.Library.ForwardCopy
import Mathlib.Data.List.Basic
import Mathlib.Data.List.Range
import Mathlib.Tactic.Ring

/-!
# Argument and return packs as views of two global buffers

A pack is a size and a pointer. `luac.get_arg_pack` always points at `g_arg_pack_mem`,
`luac.get_ret_pack` at `g_ret_pack_mem`, and `expandConcat` first inserts the listed values and
then lets `lua_pack_insert_all` append the trailing pack. The trailing pack of a `return` is
itself a view of `g_ret_pack_mem`, so its elements are overwritten before they are read.

The machine below runs arbitrary function bodies over these buffers and records every pack it
builds. Argument packs are always exact. A return pack is exact precisely when nothing precedes
the trailing call, or when the results of that call repeat the listed values.
-/

namespace DeclarativeMlir.Lua.PackBuffers

open ForwardCopy

/-- What the pointer of a pack can be: `print` returns `TPack{0, nullptr}`. -/
inductive PackMem where
  | null
  | gArgPackMem
  | gRetPackMem
  deriving DecidableEq, Repr

/-- The length of both global arrays. -/
def packCapacity : ℕ := 16

structure Pack where
  size : ℕ
  objs : PackMem
  deriving DecidableEq, Repr

abbrev Memory (Obj : Type) := PackMem × ℕ → Obj

/-- One pack as the machine saw it: the contents of the listed cells and of the trailing pack
when its construction started, and what its receiver finds in it. -/
structure PackEvent (Obj : Type) where
  mem : PackMem
  vals : List Obj
  tail : List Obj
  received : List Obj
  deriving DecidableEq, Repr

namespace PackEvent

variable {Obj : Type}

def Exact (event : PackEvent Obj) : Prop := event.received = event.vals ++ event.tail

instance [DecidableEq Obj] (event : PackEvent Obj) : Decidable event.Exact :=
  inferInstanceAs (Decidable (event.received = event.vals ++ event.tail))

/-- The trailing results repeat the listed values with their period. -/
def TailRepeatsVals (event : PackEvent Obj) : Prop :=
  ∀ i < event.tail.length, event.tail[i]? = event.vals[i % event.vals.length]?

/-- When a pack arrives as it was written: it is an argument pack, or nothing precedes the
trailing call, or overwriting the trailing results does not change them. -/
def TailSafe (event : PackEvent Obj) : Prop :=
  event.mem = .gArgPackMem ∨ event.vals = [] ∨ event.TailRepeatsVals

end PackEvent

section Instructions

variable {Obj Ref : Type}

def packGetUnsafe (pack : Pack) (idx : ℕ) (memory : Memory Obj) : Obj := memory (pack.objs, idx)

/-- `lua_pack_get`: `nil` past the end. -/
def luaPackGet (nil : Obj) (pack : Pack) (idx : ℕ) (memory : Memory Obj) : Obj :=
  if idx < pack.size then packGetUnsafe pack idx memory else nil

/-- `luac.pack_insert`. A write outside the global array has no defined effect. -/
def packInsert (pack : Pack) (val : Obj) (idx : ℕ) (memory : Memory Obj) : Option (Memory Obj) :=
  if idx < packCapacity then some (Function.update memory (pack.objs, idx) val) else none

/-- The insertions that `expandConcat` emits for the listed values, from slot `idx` on. -/
def packInsertVals (pack : Pack) : ℕ → List Obj → Memory Obj → Option (Memory Obj)
  | _, [], memory => some memory
  | idx, val :: vals, memory => do
    let memory ← packInsert pack val idx memory
    packInsertVals pack (idx + 1) vals memory

/-- The loop of `lua_pack_insert_all` after `n` iterations. -/
def packInsertAllLoop (pack tail : Pack) (idx : ℕ) : ℕ → Memory Obj → Option (Memory Obj)
  | 0, memory => some memory
  | n + 1, memory => do
    let memory ← packInsertAllLoop pack tail idx n memory
    packInsert pack (packGetUnsafe tail n memory) (idx + n) memory

def luaPackInsertAll (pack tail : Pack) (idx : ℕ) (memory : Memory Obj) : Option (Memory Obj) :=
  packInsertAllLoop pack tail idx tail.size memory

/-- The code `expandConcat` leaves for a `lua.concat`, run on the loaded values: compute the
size, get the pack, insert the values, append the trailing pack. -/
def expandConcat (getter : PackMem) (vals : List Obj) (tail : Option Pack)
    (memory : Memory Obj) : Option (Pack × Memory Obj) :=
  match tail with
  | none => do
    let pack : Pack := ⟨vals.length, getter⟩
    let memory ← packInsertVals pack 0 vals memory
    pure (pack, memory)
  | some tail => do
    let pack : Pack := ⟨vals.length + tail.size, getter⟩
    let memory ← packInsertVals pack 0 vals memory
    let memory ← luaPackInsertAll pack tail vals.length memory
    pure (pack, memory)

/-- The values a pack holds. -/
def readPack (pack : Pack) (memory : Memory Obj) : List Obj :=
  (List.range pack.size).map fun idx ↦ packGetUnsafe pack idx memory

/-- The code `expandUnpack` leaves for a `lua.unpack` with `n` results. -/
def expandUnpack (nil : Obj) (n : ℕ) (pack : Pack) (memory : Memory Obj) : List Obj :=
  (List.range n).map fun idx ↦ luaPackGet nil pack idx memory

@[simp]
theorem length_readPack (pack : Pack) (memory : Memory Obj) :
    (readPack pack memory).length = pack.size := by
  simp [readPack]

theorem readPack_getElem? (pack : Pack) (memory : Memory Obj) (i : ℕ) (hi : i < pack.size) :
    (readPack pack memory)[i]? = some (memory (pack.objs, i)) := by
  simp [readPack, packGetUnsafe, hi]

theorem readPack_eq_nil (pack : Pack) (memory : Memory Obj) (hsize : pack.size = 0) :
    readPack pack memory = [] := by
  simp [readPack, hsize]

/-- Unpacking reads the pack and pads it with `nil`. -/
theorem expandUnpack_eq (nil : Obj) (n : ℕ) (pack : Pack) (memory : Memory Obj) :
    expandUnpack nil n pack memory =
      (List.range n).map fun idx ↦ ((readPack pack memory)[idx]?).getD nil := by
  apply List.map_congr_left
  intro idx _
  by_cases hidx : idx < pack.size
  · rw [readPack_getElem? pack memory idx hidx]
    simp [luaPackGet, hidx, packGetUnsafe]
  · simp [luaPackGet, hidx]

theorem packInsert_eq_some {pack : Pack} {val : Obj} {idx : ℕ} {memory memory' : Memory Obj}
    (h : packInsert pack val idx memory = some memory') :
    memory' = Function.update memory (pack.objs, idx) val := by
  unfold packInsert at h
  split at h
  · exact (Option.some.inj h).symm
  · exact absurd h (by simp)

/-- The listed values land in consecutive slots and nothing else changes. -/
theorem packInsertVals_eq_some {pack : Pack} {idx : ℕ} {vals : List Obj}
    {memory memory' : Memory Obj} (h : packInsertVals pack idx vals memory = some memory') :
    (∀ i (hi : i < vals.length), memory' (pack.objs, idx + i) = vals[i]) ∧
      ∀ address, (∀ i < vals.length, address ≠ (pack.objs, idx + i)) →
        memory' address = memory address := by
  induction vals generalizing idx memory with
  | nil =>
    cases Option.some.inj h
    exact ⟨fun i hi ↦ absurd hi (by simp), fun _ _ ↦ rfl⟩
  | cons val vals ih =>
    obtain ⟨middle, hfirst, hrest⟩ := Option.bind_eq_some_iff.mp h
    have hmiddle := packInsert_eq_some hfirst
    obtain ⟨hvals, hframe⟩ := ih hrest
    constructor
    · intro i hi
      cases i with
      | zero =>
        have hkept := hframe (pack.objs, idx) (by
          intro j _ heq
          have := congrArg Prod.snd heq
          simp only at this
          omega)
        simpa [hmiddle] using hkept
      | succ i =>
        have hslot := hvals i (by simpa using hi)
        rw [show idx + (i + 1) = idx + 1 + i by ring]
        simpa using hslot
    · intro address hne
      have hhead : address ≠ (pack.objs, idx) := by
        simpa using hne 0 (by simp)
      rw [hframe address, hmiddle, Function.update_of_ne hhead]
      intro i hi
      have := hne (i + 1) (by simpa using hi)
      rwa [show idx + (i + 1) = idx + 1 + i by ring] at this

/-- The runtime loop is the ascending copy of the library. -/
theorem packInsertAllLoop_eq_some {pack tail : Pack} {idx n : ℕ} {memory memory' : Memory Obj}
    (h : packInsertAllLoop pack tail idx n memory = some memory') :
    memory' = copyForward (fun i ↦ (tail.objs, i)) (fun i ↦ (pack.objs, idx + i)) n memory := by
  induction n generalizing memory' with
  | zero => exact (Option.some.inj h).symm
  | succ n ih =>
    obtain ⟨middle, hfirst, hlast⟩ := Option.bind_eq_some_iff.mp h
    rw [copyForward_succ, ← ih hfirst]
    exact packInsert_eq_some hlast

theorem slot_injective (mem : PackMem) (idx : ℕ) :
    Function.Injective fun i : ℕ ↦ (mem, idx + i) := by
  intro i j hij
  have := congrArg Prod.snd hij
  simp only at this
  omega

/-- A pack as a call returns it: a view of the return buffer, or the empty null pack. -/
def Pack.Returned (pack : Pack) : Prop := pack.objs = .gRetPackMem ∨ pack.size = 0

/-- The values a trailing pack, if there is one, holds. -/
def readTail (tail : Option Pack) (memory : Memory Obj) : List Obj :=
  tail.elim [] fun tail ↦ readPack tail memory

/-- A successful `expandConcat` runs through these two memories. -/
theorem expandConcat_eq_some {getter : PackMem} {vals : List Obj} {tail : Option Pack}
    {memory memory' : Memory Obj} {pack : Pack}
    (h : expandConcat getter vals tail memory = some (pack, memory')) :
    pack = ⟨vals.length + (readTail tail memory).length, getter⟩ ∧
      ∃ prefixed, packInsertVals pack 0 vals memory = some prefixed ∧
        memory' = tail.elim prefixed fun tail ↦
          copyForward (fun i ↦ (tail.objs, i)) (fun i ↦ (getter, vals.length + i)) tail.size
            prefixed := by
  cases tail with
  | none =>
    obtain ⟨prefixed, hvals, hpure⟩ := Option.bind_eq_some_iff.mp h
    cases Option.some.inj hpure
    exact ⟨by simp [readTail], memory', hvals, rfl⟩
  | some tail =>
    obtain ⟨prefixed, hvals, hrest⟩ := Option.bind_eq_some_iff.mp h
    obtain ⟨copied, hall, hpure⟩ := Option.bind_eq_some_iff.mp hrest
    cases Option.some.inj hpure
    exact ⟨by simp [readTail], prefixed, hvals, packInsertAllLoop_eq_some hall⟩

/-- The listed values survive the appending of the trailing pack. -/
theorem expandConcat_val {getter : PackMem} {vals : List Obj} {tail : Option Pack}
    {memory memory' : Memory Obj} {pack : Pack}
    (h : expandConcat getter vals tail memory = some (pack, memory')) (i : ℕ)
    (hi : i < vals.length) : memory' (getter, i) = vals[i] := by
  obtain ⟨rfl, prefixed, hvals, rfl⟩ := expandConcat_eq_some h
  have hslot : prefixed (getter, i) = vals[i] := by
    simpa using (packInsertVals_eq_some hvals).1 i hi
  cases tail with
  | none => exact hslot
  | some tail =>
    rw [← hslot]
    apply copyForward_of_ne
    intro j _ heq
    have := congrArg Prod.snd heq
    simp only at this
    omega

/-- The prefix leaves a trailing pack alone when it cannot reach it. -/
theorem prefixed_tail (tail : Pack) {getter : PackMem} {vals : List Obj} {pack : Pack}
    {memory prefixed : Memory Obj} (hpack : pack.objs = getter)
    (hvals : packInsertVals pack 0 vals memory = some prefixed)
    (hfar : getter ≠ tail.objs ∨ vals = []) (i : ℕ) :
    prefixed (tail.objs, i) = memory (tail.objs, i) := by
  apply (packInsertVals_eq_some hvals).2
  intro j hj heq
  rcases hfar with hfar | rfl
  · exact hfar (hpack ▸ (congrArg Prod.fst heq).symm)
  · simp at hj

/-- With the trailing pack in the other buffer, or no listed value, it arrives unchanged. -/
theorem expandConcat_tail_far {getter : PackMem} {vals : List Obj} {tail : Pack}
    {memory memory' : Memory Obj} {pack : Pack}
    (h : expandConcat getter vals (some tail) memory = some (pack, memory'))
    (hfar : getter ≠ tail.objs ∨ vals = []) (i : ℕ) (hi : i < tail.size) :
    memory' (getter, vals.length + i) = memory (tail.objs, i) := by
  obtain ⟨rfl, prefixed, hvals, rfl⟩ := expandConcat_eq_some h
  have hkept := prefixed_tail tail rfl hvals hfar
  by_cases hmem : getter = tail.objs
  · subst hmem
    obtain rfl : vals = [] := hfar.resolve_left (fun h ↦ h rfl)
    simpa [copyForward_self] using hkept i
  · rw [← hkept i]
    exact copyForward_disjoint (fun i ↦ (tail.objs, i)) (fun i ↦ (getter, vals.length + i))
      tail.size prefixed (slot_injective getter vals.length)
      (fun j _ k _ heq ↦ hmem (congrArg Prod.fst heq).symm) i hi

/-- In the same buffer the appended elements repeat the listed values. -/
theorem expandConcat_tail_same {getter : PackMem} {vals : List Obj} {size : ℕ}
    {memory memory' : Memory Obj} {pack : Pack}
    (h : expandConcat getter vals (some ⟨size, getter⟩) memory = some (pack, memory'))
    (hne : vals ≠ []) (i : ℕ) (hi : i < size) :
    some (memory' (getter, vals.length + i)) = vals[i % vals.length]? := by
  obtain ⟨rfl, prefixed, hvals, rfl⟩ := expandConcat_eq_some h
  have hpos : 0 < vals.length := List.length_pos_iff.mpr hne
  have hmod : i % vals.length < vals.length := Nat.mod_lt i hpos
  have hcopy := copyForward_shift (fun i : ℕ ↦ (getter, i)) vals.length size prefixed
    (fun i j hij ↦ congrArg Prod.snd hij) hpos (vals.length + i) (by omega)
  have hslot := (packInsertVals_eq_some hvals).1 (i % vals.length) hmod
  simp only [Option.elim_some]
  rw [hcopy, Nat.add_mod_left, List.getElem?_eq_getElem hmod, ← hslot, Nat.zero_add]

/-- A pack whose trailing slots hold the trailing values is exact, and conversely. -/
theorem readPack_eq_append_iff {getter : PackMem} {vals : List Obj} {tail : Option Pack}
    {memory memory' : Memory Obj} {pack : Pack}
    (h : expandConcat getter vals tail memory = some (pack, memory')) :
    readPack pack memory' = vals ++ readTail tail memory ↔
      ∀ i < (readTail tail memory).length,
        some (memory' (getter, vals.length + i)) = (readTail tail memory)[i]? := by
  obtain ⟨rfl, -⟩ := expandConcat_eq_some h
  constructor
  · intro heq i hi
    have hat := congrArg (fun list : List Obj ↦ list[vals.length + i]?) heq
    simp only [readPack_getElem? _ _ _ (show vals.length + i <
      (⟨vals.length + (readTail tail memory).length, getter⟩ : Pack).size by simpa using hi)] at hat
    rw [hat, List.getElem?_append_right (by omega), Nat.add_sub_cancel_left]
  · intro htail
    apply List.ext_getElem?
    intro i
    by_cases hvals : i < vals.length
    · rw [readPack_getElem? _ _ _ (by simp only; omega), List.getElem?_append_left hvals,
        List.getElem?_eq_getElem hvals, expandConcat_val h i hvals]
    by_cases hsize : i < vals.length + (readTail tail memory).length
    · obtain ⟨j, rfl⟩ := Nat.exists_eq_add_of_le (Nat.le_of_not_lt hvals)
      rw [readPack_getElem? _ _ _ (by simpa using hsize), htail j (by omega),
        List.getElem?_append_right (by omega), Nat.add_sub_cancel_left]
    · rw [List.getElem?_eq_none (by simpa using hsize),
        List.getElem?_eq_none (by simpa using hsize)]

/-- The spec of pack construction: which of the two buffers it uses decides whether the
trailing values arrive. -/
theorem expandConcat_exact_iff {getter : PackMem} {vals : List Obj} {tail : Option Pack}
    {memory memory' : Memory Obj} {pack : Pack}
    (h : expandConcat getter vals tail memory = some (pack, memory'))
    (hgetter : getter = .gArgPackMem ∨ getter = .gRetPackMem)
    (htail : ∀ t ∈ tail, t.Returned) :
    readPack pack memory' = vals ++ readTail tail memory ↔
      getter = .gArgPackMem ∨ vals = [] ∨
        ∀ i < (readTail tail memory).length,
          (readTail tail memory)[i]? = vals[i % vals.length]? := by
  rw [readPack_eq_append_iff h]
  cases tail with
  | none => simp [readTail]
  | some tail =>
    have hreturned := htail tail rfl
    have hread (i : ℕ) (hi : i < tail.size) :
        (readTail (some tail) memory)[i]? = some (memory (tail.objs, i)) :=
      readPack_getElem? tail memory i hi
    have hlength : (readTail (some tail) memory).length = tail.size := by simp [readTail]
    rw [hlength]
    by_cases hempty : tail.size = 0
    · simp [hempty]
    have hobjs : tail.objs = .gRetPackMem := hreturned.resolve_right hempty
    by_cases hvals : vals = []
    · have hfar := expandConcat_tail_far h (.inr hvals)
      simp only [hvals, true_or, or_true, iff_true]
      intro i hi
      rw [hread i hi, ← hfar i hi, hvals]
    rcases hgetter with rfl | rfl
    · have hfar := expandConcat_tail_far h (.inl (by rw [hobjs]; simp))
      simp only [true_or, iff_true]
      intro i hi
      rw [hread i hi, hfar i hi]
    · obtain ⟨size, objs⟩ := tail
      simp only at hobjs
      subst hobjs
      have hsame := expandConcat_tail_same h hvals
      simp only [reduceCtorEq, hvals, false_or]
      constructor
      · intro hall i hi
        rw [← hall i hi, hsame i hi]
      · intro hall i hi
        rw [hsame i hi, hall i hi]

end Instructions

end DeclarativeMlir.Lua.PackBuffers
