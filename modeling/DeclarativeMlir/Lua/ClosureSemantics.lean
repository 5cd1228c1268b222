import DeclarativeMlir.Lua.ClosureConversion
import Mathlib.Data.Set.Basic

/-!
# What closure conversion keeps

`Converts forms ρ visible code code'` says that `code'` is `code` with its function definitions
converted. `ρ` gives the source value that a value of the converted code holds, and `visible` are
the values in scope. A converted function sees its own entry arguments only; there `ρ` is given by
its captures and parameters. `forms` lists the forms of functions that may be left.
-/

namespace DeclarativeMlir.Lua

/-! ## Regions of one block -/

/-- The regions of op `id`, each with the block `addEntryBlock` creates. -/
def entryRegions {ι : Type} (id : ι) : ℕ → List (ℕ × List (Op ι)) → List (Region ι)
  | _, [] => []
  | region, (numArgs, ops) :: bodies =>
    [.mk (.entry id region) numArgs ops] :: entryRegions id (region + 1) bodies

theorem substRegions_entryRegions {ι κ : Type} (f : ι → κ) (v : Value ι → Value κ) (id : ι)
    (region : ℕ) (bodies : List (ℕ × List (Op ι))) :
    substRegions f v (entryRegions id region bodies) =
      entryRegions (f id) region (bodies.map fun body ↦ (body.1, substOps f v body.2)) := by
  induction bodies generalizing region with
  | nil => rfl
  | cons body bodies ih =>
    simp only [entryRegions, substRegions, substBlocks, Blk.subst, BlockId.map, List.map_cons, ih]

theorem walkRegions_entryRegions {ι : Type} (id : ι) (region : ℕ)
    (bodies : List (ℕ × List (Op ι))) :
    walkRegions (entryRegions id region bodies) = bodies.flatMap fun body ↦ walkOps body.2 := by
  induction bodies generalizing region with
  | nil => rfl
  | cons body bodies ih =>
    simp only [entryRegions, walkRegions, walkBlocks, Blk.walk, List.append_nil, ih,
      List.flatMap_cons]

theorem defsRegions_entryRegions {ι : Type} (id : ι) (region : ℕ)
    (bodies : List (ℕ × List (Op ι))) :
    defsRegions (entryRegions id region bodies) = bodies.flatMap fun body ↦ defsOps body.2 := by
  induction bodies generalizing region with
  | nil => rfl
  | cons body bodies ih =>
    simp only [entryRegions, defsRegions, defsBlocks, Blk.defs, List.append_nil, ih,
      List.flatMap_cons]

section

variable {ι : Type} (id : ι) (name : OpName) (attr : Attr) (operands : List (Value ι))
  (numResults : ℕ) (successors : List (BlockId ι)) (rest : List (Op ι))

theorem mem_uses_entryRegions (bodies : List (ℕ × List (Op ι))) (value : Value ι) :
    value ∈ uses (.mk id name attr operands numResults successors (entryRegions id 0 bodies) ::
        rest) ↔
      value ∈ operands ∨ (∃ body ∈ bodies, value ∈ uses body.2) ∨ value ∈ uses rest := by
  simp only [uses, walkOps, Op.walk, walkRegions_entryRegions, List.cons_append,
    List.flatMap_cons, List.flatMap_append, Op.operands_mk, List.mem_append, List.mem_flatMap]
  constructor
  · rintro (hvalue | ⟨op, ⟨body, hbody, hop⟩, hvalue⟩ | hrest)
    · exact .inl hvalue
    · exact .inr (.inl ⟨body, hbody, op, hop, hvalue⟩)
    · exact .inr (.inr hrest)
  · rintro (hvalue | ⟨body, hbody, op, hop, hvalue⟩ | hrest)
    · exact .inl hvalue
    · exact .inr (.inl ⟨op, ⟨body, hbody, hop⟩, hvalue⟩)
    · exact .inr (.inr hrest)

theorem mem_uses_block (label : BlockId ι) (numArgs : ℕ) (body : List (Op ι)) (value : Value ι) :
    value ∈ uses (.mk id name attr operands numResults successors [[.mk label numArgs body]] ::
        rest) ↔
      value ∈ operands ∨ value ∈ uses body ∨ value ∈ uses rest := by
  simp [uses, walkOps, Op.walk, walkRegions, walkBlocks, Blk.walk, or_and_right, exists_or]

theorem mem_uses_create (value : Value ι) :
    value ∈ uses (create id name operands numResults :: rest) ↔
      value ∈ operands ∨ value ∈ uses rest := by
  simp [uses, walkOps, Op.walk, walkRegions, create]

end

/-! ## The relation -/

def blockArgs {ι : Type} (label : BlockId ι) (numArgs : ℕ) : Set (Value ι) :=
  fun value ↦ ∃ i < numArgs, value = .arg label i

def opResults {ι : Type} (op : ι) (numResults : ℕ) : Set (Value ι) :=
  fun value ↦ ∃ i < numResults, value = .res op i

inductive Converts (forms : OpName → Prop) :
    (Value OpId → Value ℕ) → Set (Value OpId) → List (Op ℕ) → List (Op OpId) → Prop where
  | nil {ρ visible} : Converts forms ρ visible [] []
  | plain {ρ visible n id name attr operands numResults rest rest'}
      (bodies : List (ℕ × List (Op ℕ) × List (Op OpId)))
      (hform : name = .function_def → forms .function_def)
      (hcapture : name ≠ .function_def_capture) (hpack : name ≠ .pack_func)
      (hparams : name = .function_def → ∀ params, attr = .strs params →
        ∀ body ∈ bodies, body.1 = params.length)
      (hid : id.origin = n) (hresults : ∀ i, ρ (.res id i) = .res n i)
      (hargs : ∀ r i, ρ (.arg (.entry id r) i) = .arg (.entry n r) i)
      (hvisible : ∀ value ∈ operands, value ∈ visible)
      (hbodies : ∀ r body, bodies[r]? = some body →
        Converts forms ρ (blockArgs (.entry id r) body.1 ∪ visible) body.2.1 body.2.2)
      (hrest : Converts forms ρ (opResults id numResults ∪ visible) rest rest') :
      Converts forms ρ visible
        (.mk n name attr (operands.map ρ) numResults []
          (entryRegions n 0 (bodies.map fun body ↦ (body.1, body.2.1))) :: rest)
        (.mk id name attr operands numResults []
          (entryRegions id 0 (bodies.map fun body ↦ (body.1, body.2.2))) :: rest')
  | functionDefCapture {ρ visible n id params captures body body' rest rest'}
      (ρ' : Value OpId → Value ℕ) (hform : forms .function_def_capture)
      (hid : id.origin = n) (hresults : ∀ i, ρ (.res id i) = .res n i)
      (hvisible : ∀ value ∈ captures, value ∈ visible)
      (hcaptures : ∀ i capture, captures[i]? = some capture →
        ρ' (.arg (.new id 0) i) = ρ capture)
      (hparams : ∀ i, ρ' (.arg (.new id 0) (captures.length + i)) = .arg (.entry n 0) i)
      (hfree : ∀ value ∈ uses body, value.owner ∉ n :: defsOps body → value ∈ captures.map ρ)
      (hbody : Converts forms ρ' (blockArgs (.new id 0) (captures.length + params.length)) body
        body')
      (hrest : Converts forms ρ (opResults id 1 ∪ visible) rest rest') :
      Converts forms ρ visible
        (.mk n .function_def (.strs params) [] 1 [] [[.mk (.entry n 0) params.length body]] ::
          rest)
        (.mk id .function_def_capture (.strs params) captures 1 []
          [[.mk (.new id 0) (captures.length + params.length) body']] :: rest')
  | packFunc {ρ visible n id params captures caps args body body' rest rest'}
      (ρ' : Value OpId → Value ℕ) (hform : forms .pack_func)
      (hid : id.origin = n) (hcaps : caps.origin = n) (hargs : args.origin = n)
      (hresults : ∀ i, ρ (.res id i) = .res n i)
      (hvisible : ∀ value ∈ captures, value ∈ visible)
      (hcaptures : ∀ i capture, captures[i]? = some capture → ρ' (.res caps i) = ρ capture)
      (hparams : ∀ i, ρ' (.res args i) = .arg (.entry n 0) i)
      (hfree : ∀ value ∈ uses body, value.owner ∉ n :: defsOps body → value ∈ captures.map ρ)
      (hbody : Converts forms ρ' (opResults caps captures.length ∪ opResults args params.length)
        body body')
      (hrest : Converts forms ρ (opResults id 1 ∪ visible) rest rest') :
      Converts forms ρ visible
        (.mk n .function_def (.strs params) [] 1 [] [[.mk (.entry n 0) params.length body]] ::
          rest)
        (.mk id .pack_func .none captures 1 [] [[.mk (.new id 1) 2 (
          create caps .get_captures [.arg (.new id 1) 0] captures.length ::
          create args .unpack [.arg (.new id 1) 1] params.length :: body')]] :: rest')

theorem owner_of_blockArgs {ι : Type} {label : BlockId ι} {numArgs : ℕ} {value : Value ι}
    (hvalue : value ∈ blockArgs label numArgs) : value.owner = label.owner := by
  obtain ⟨i, -, rfl⟩ := hvalue
  rfl

theorem owner_of_opResults {ι : Type} {op : ι} {numResults : ℕ} {value : Value ι}
    (hvalue : value ∈ opResults op numResults) : value.owner = op := by
  obtain ⟨i, -, rfl⟩ := hvalue
  rfl

namespace Converts

variable {forms : OpName → Prop} {ρ ρ' : Value OpId → Value ℕ} {visible visible' : Set (Value OpId)}
  {code : List (Op ℕ)} {code' : List (Op OpId)}

/-- Identities of the converted code come from the source. -/
theorem origin_mem (hconv : Converts forms ρ visible code code') :
    ∀ id ∈ defsOps code', id.origin ∈ defsOps code := by
  induction hconv with
  | nil => simp [defsOps]
  | plain bodies hform hcapture hpack hparams hid hresults hargs hvisible hbodies hrest ihbodies
      ihrest =>
    intro id hmem
    simp only [defsOps, Op.defs, defsRegions_entryRegions, List.mem_append, List.mem_cons,
      List.mem_flatMap, List.mem_map, exists_exists_and_eq_and] at hmem ⊢
    rcases hmem with (rfl | ⟨body, hbody, hmem⟩) | hmem
    · exact .inl (.inl hid)
    · obtain ⟨r, hr⟩ := List.mem_iff_getElem?.mp hbody
      exact .inl (.inr ⟨body, hbody, ihbodies r body hr id hmem⟩)
    · exact .inr (ihrest id hmem)
  | functionDefCapture ρ' hform hid hresults hvisible hcaptures hparams hfree hbody hrest ihbody
      ihrest =>
    intro id hmem
    simp only [defsOps, Op.defs, defsRegions, defsBlocks, Blk.defs, List.mem_append,
      List.mem_cons, List.append_nil] at hmem ⊢
    rcases hmem with (rfl | rfl | hmem) | hmem
    · exact .inl (.inl hid)
    · exact .inl (.inl hid)
    · exact .inl (.inr (ihbody id hmem))
    · exact .inr (ihrest id hmem)
  | packFunc ρ' hform hid hcaps hargs hresults hvisible hcaptures hparams hfree hbody hrest ihbody
      ihrest =>
    intro id hmem
    simp only [defsOps, Op.defs, defsRegions, defsBlocks, Blk.defs, create, List.mem_append,
      List.mem_cons, List.append_nil, List.not_mem_nil, or_false] at hmem ⊢
    rcases hmem with (rfl | rfl | rfl | rfl | hmem) | hmem
    · exact .inl (.inl hid)
    · exact .inl (.inl hid)
    · exact .inl (.inl hcaps)
    · exact .inl (.inl hargs)
    · exact .inl (.inr (ihbody id hmem))
    · exact .inr (ihrest id hmem)

/-- Every value used is in scope or defined in the code. -/
theorem uses_subset (hconv : Converts forms ρ visible code code') :
    ∀ value ∈ uses code', value ∈ visible ∨ value.owner ∈ defsOps code' := by
  induction hconv with
  | nil => simp [uses, walkOps]
  | plain bodies hform hcapture hpack hparams hid hresults hargs hvisible hbodies hrest ihbodies
      ihrest =>
    intro value hvalue
    simp only [mem_uses_entryRegions, List.mem_map, exists_exists_and_eq_and] at hvalue
    simp only [defsOps, Op.defs, defsRegions_entryRegions, List.mem_append, List.mem_cons,
      List.mem_flatMap, List.mem_map, exists_exists_and_eq_and]
    rcases hvalue with hvalue | ⟨body, hbody, hvalue⟩ | hvalue
    · exact .inl (hvisible value hvalue)
    · obtain ⟨r, hr⟩ := List.mem_iff_getElem?.mp hbody
      rcases ihbodies r body hr value hvalue with (harg | hscope) | hdef
      · exact .inr (.inl (.inl (owner_of_blockArgs harg)))
      · exact .inl hscope
      · exact .inr (.inl (.inr ⟨body, hbody, hdef⟩))
    · rcases ihrest value hvalue with (hres | hscope) | hdef
      · exact .inr (.inl (.inl (owner_of_opResults hres)))
      · exact .inl hscope
      · exact .inr (.inr hdef)
  | functionDefCapture ρ' hform hid hresults hvisible hcaptures hparams hfree hbody hrest ihbody
      ihrest =>
    intro value hvalue
    simp only [mem_uses_block] at hvalue
    simp only [defsOps, Op.defs, defsRegions, defsBlocks, Blk.defs, List.mem_append,
      List.mem_cons, List.append_nil]
    rcases hvalue with hvalue | hvalue | hvalue
    · exact .inl (hvisible value hvalue)
    · rcases ihbody value hvalue with harg | hdef
      · exact .inr (.inl (.inl (owner_of_blockArgs harg)))
      · exact .inr (.inl (.inr (.inr hdef)))
    · rcases ihrest value hvalue with (hres | hscope) | hdef
      · exact .inr (.inl (.inl (owner_of_opResults hres)))
      · exact .inl hscope
      · exact .inr (.inr hdef)
  | packFunc ρ' hform hid hcaps hargs hresults hvisible hcaptures hparams hfree hbody hrest ihbody
      ihrest =>
    intro value hvalue
    simp only [mem_uses_block, mem_uses_create, List.mem_singleton] at hvalue
    simp only [defsOps, Op.defs, defsRegions, defsBlocks, Blk.defs, create, List.mem_append,
      List.mem_cons, List.append_nil, List.not_mem_nil, or_false]
    rcases hvalue with hvalue | (rfl | rfl | hvalue) | hvalue
    · exact .inl (hvisible value hvalue)
    · exact .inr (.inl (.inl rfl))
    · exact .inr (.inl (.inl rfl))
    · rcases ihbody value hvalue with (hcap | harg) | hdef
      · exact .inr (.inl (.inr (.inr (.inl (owner_of_opResults hcap)))))
      · exact .inr (.inl (.inr (.inr (.inr (.inl (owner_of_opResults harg))))))
      · exact .inr (.inl (.inr (.inr (.inr (.inr hdef)))))
    · rcases ihrest value hvalue with (hres | hscope) | hdef
      · exact .inr (.inl (.inl (owner_of_opResults hres)))
      · exact .inl hscope
      · exact .inr (.inr hdef)

/-- The identities of the converted code are those of its ops. -/
theorem defs_subset (hconv : Converts forms ρ visible code code') :
    ∀ id ∈ defsOps code', id ∈ (walkOps code').map Op.id := by
  induction hconv with
  | nil => simp [defsOps]
  | plain bodies hform hcapture hpack hparams hid hresults hargs hvisible hbodies hrest ihbodies
      ihrest =>
    intro id hmem
    simp only [defsOps, Op.defs, defsRegions_entryRegions, List.mem_append, List.mem_cons,
      List.mem_flatMap, List.mem_map, exists_exists_and_eq_and] at hmem
    simp only [walkOps, Op.walk, walkRegions_entryRegions, List.map_append, List.map_cons,
      List.mem_append, List.mem_cons, Op.id_mk]
    rcases hmem with (rfl | ⟨body, hbody, hmem⟩) | hmem
    · exact .inl (.inl rfl)
    · obtain ⟨r, hr⟩ := List.mem_iff_getElem?.mp hbody
      obtain ⟨op, hop, rfl⟩ := List.mem_map.mp (ihbodies r body hr id hmem)
      have hbody' : (body.1, body.2.2) ∈ bodies.map fun body ↦ (body.1, body.2.2) :=
        List.mem_map.mpr ⟨body, hbody, rfl⟩
      exact .inl (.inr (List.mem_map_of_mem (List.mem_flatMap.mpr ⟨_, hbody', hop⟩)))
    · exact .inr (ihrest id hmem)
  | functionDefCapture ρ' hform hid hresults hvisible hcaptures hparams hfree hbody hrest ihbody
      ihrest =>
    intro id hmem
    simp only [defsOps, Op.defs, defsRegions, defsBlocks, Blk.defs, List.mem_append,
      List.mem_cons, List.append_nil] at hmem
    simp only [walkOps, Op.walk, walkRegions, walkBlocks, Blk.walk, List.append_nil,
      List.map_append, List.map_cons, List.mem_append, List.mem_cons, Op.id_mk]
    rcases hmem with (rfl | rfl | hmem) | hmem
    · exact .inl (.inl rfl)
    · exact .inl (.inl rfl)
    · exact .inl (.inr (ihbody id hmem))
    · exact .inr (ihrest id hmem)
  | packFunc ρ' hform hid hcaps hargs hresults hvisible hcaptures hparams hfree hbody hrest ihbody
      ihrest =>
    intro id hmem
    simp only [defsOps, Op.defs, defsRegions, defsBlocks, Blk.defs, create, List.mem_append,
      List.mem_cons, List.append_nil, List.not_mem_nil, or_false] at hmem
    simp only [walkOps, Op.walk, walkRegions, walkBlocks, Blk.walk, create, List.append_nil,
      List.map_append, List.map_cons, List.map_nil, List.mem_append,
      List.mem_cons, List.not_mem_nil, or_false, Op.id_mk]
    rcases hmem with (rfl | rfl | rfl | rfl | hmem) | hmem
    · exact .inl (.inl rfl)
    · exact .inl (.inl rfl)
    · exact .inl (.inr (.inl rfl))
    · exact .inl (.inr (.inr (.inl rfl)))
    · exact .inl (.inr (.inr (.inr (ihbody id hmem))))
    · exact .inr (ihrest id hmem)

/-- A free value of the source is held by a value that the converted code uses from outside. -/
theorem exists_use (hconv : Converts forms ρ visible code code') :
    ∀ value ∈ uses code, value.owner ∉ defsOps code →
      ∃ value' ∈ uses code', value' ∈ visible ∧ ρ value' = value := by
  induction hconv with
  | nil => simp [uses, walkOps]
  | plain bodies hform hcapture hpack hparams hid hresults hargs hvisible hbodies hrest ihbodies
      ihrest =>
    intro value hvalue hfree
    simp only [mem_uses_entryRegions, List.mem_map, exists_exists_and_eq_and] at hvalue ⊢
    simp only [defsOps, Op.defs, defsRegions_entryRegions, List.mem_append, List.mem_cons,
      List.mem_flatMap, List.mem_map, exists_exists_and_eq_and, not_or, not_exists, not_and]
      at hfree
    obtain ⟨⟨hne, hnested⟩, hlater⟩ := hfree
    rcases hvalue with ⟨operand, hoperand, rfl⟩ | ⟨body, hbody, hvalue⟩ | hvalue
    · exact ⟨operand, .inl hoperand, hvisible operand hoperand, rfl⟩
    · obtain ⟨r, hr⟩ := List.mem_iff_getElem?.mp hbody
      obtain ⟨value', huse, hscope, rfl⟩ := ihbodies r body hr value hvalue (hnested body hbody)
      rcases hscope with ⟨i, -, rfl⟩ | hscope
      · exact absurd (by rw [hargs]; rfl) hne
      · exact ⟨value', .inr (.inl ⟨body, hbody, huse⟩), hscope, rfl⟩
    · obtain ⟨value', huse, hscope, rfl⟩ := ihrest value hvalue hlater
      rcases hscope with ⟨i, -, rfl⟩ | hscope
      · exact absurd (by rw [hresults]; rfl) hne
      · exact ⟨value', .inr (.inr huse), hscope, rfl⟩
  | functionDefCapture ρ' hform hid hresults hvisible hcaptures hparams hfreeBody hbody hrest
      ihbody ihrest =>
    intro value hvalue hfree
    simp only [mem_uses_block, List.not_mem_nil, false_or] at hvalue ⊢
    simp only [defsOps, Op.defs, defsRegions, defsBlocks, Blk.defs, List.mem_append,
      List.append_nil, not_or] at hfree
    rcases hvalue with hvalue | hvalue
    · obtain ⟨capture, hcapture, rfl⟩ := List.mem_map.mp (hfreeBody value hvalue hfree.1)
      exact ⟨capture, .inl hcapture, hvisible capture hcapture, rfl⟩
    · obtain ⟨value', huse, hscope, rfl⟩ := ihrest value hvalue hfree.2
      rcases hscope with ⟨i, -, rfl⟩ | hscope
      · rw [hresults] at hfree
        exact absurd List.mem_cons_self hfree.1
      · exact ⟨value', .inr (.inr huse), hscope, rfl⟩
  | packFunc ρ' hform hid hcaps hargs hresults hvisible hcaptures hparams hfreeBody hbody hrest
      ihbody ihrest =>
    intro value hvalue hfree
    simp only [mem_uses_block, List.not_mem_nil, false_or] at hvalue ⊢
    simp only [defsOps, Op.defs, defsRegions, defsBlocks, Blk.defs, List.mem_append,
      List.append_nil, not_or] at hfree
    rcases hvalue with hvalue | hvalue
    · obtain ⟨capture, hcapture, rfl⟩ := List.mem_map.mp (hfreeBody value hvalue hfree.1)
      exact ⟨capture, .inl hcapture, hvisible capture hcapture, rfl⟩
    · obtain ⟨value', huse, hscope, rfl⟩ := ihrest value hvalue hfree.2
      rcases hscope with ⟨i, -, rfl⟩ | hscope
      · rw [hresults] at hfree
        exact absurd List.mem_cons_self hfree.1
      · exact ⟨value', .inr (.inr huse), hscope, rfl⟩

end Converts

/-! ## Copies of converted code -/

/-- `f` renames the identities `ids` of copied code that uses the values `used`, and `v` replaces
its operands: values defined in the code are renamed, and those in scope still hold the same. -/
structure Copies (f g : OpId → OpId) (v : Value OpId → Value OpId) (ρ ρ' : Value OpId → Value ℕ)
    (visible visible' : Set (Value OpId)) (ids : List OpId) (used : List (Value OpId)) : Prop where
  inverse : ∀ id ∈ ids, g (f id) = id
  origin : ∀ id ∈ ids, (f id).origin = id.origin
  defined : ∀ value : Value OpId, value.owner ∈ ids →
    v value = value.map f ∧ ρ' (value.map f) = ρ value
  scope : ∀ value ∈ used, value ∈ visible → v value ∈ visible' ∧ ρ' (v value) = ρ value

namespace Copies

variable {f g : OpId → OpId} {v : Value OpId → Value OpId} {ρ ρ' ρ₁ : Value OpId → Value ℕ}
  {visible visible' own own' : Set (Value OpId)} {ids ids' : List OpId}
  {used used' : List (Value OpId)}

/-- Inside the copied code, where also the values `own` defined there are in scope. -/
theorem extend (hcopies : Copies f g v ρ ρ' visible visible' ids used) (hids : ids' ⊆ ids)
    (hused : used' ⊆ used) (hown : ∀ value ∈ own, value.owner ∈ ids ∧ value.map f ∈ own') :
    Copies f g v ρ ρ' (own ∪ visible) (own' ∪ visible') ids' used' where
  inverse id hid := hcopies.inverse id (hids hid)
  origin id hid := hcopies.origin id (hids hid)
  defined value hvalue := hcopies.defined value (hids hvalue)
  scope := by
    rintro value huse (hvalue | hvalue)
    · obtain ⟨howner, hmem⟩ := hown value hvalue
      obtain ⟨hv, hρ⟩ := hcopies.defined value howner
      rw [hv]
      exact ⟨.inl hmem, hρ⟩
    · obtain ⟨hmem, hρ⟩ := hcopies.scope value (hused huse) hvalue
      exact ⟨.inr hmem, hρ⟩

/-- In a function of the copied code only values of that function are in scope. -/
theorem nested (hcopies : Copies f g v ρ ρ' visible visible' ids used) (hids : ids' ⊆ ids)
    (hown : ∀ value ∈ own, value.owner ∈ ids ∧ value.map f ∈ own') :
    Copies f g v ρ₁ (fun value ↦ ρ₁ (value.map g)) own own' ids' used' := by
  have hinverse : ∀ value : Value OpId, value.owner ∈ ids → (value.map f).map g = value := by
    intro value hvalue
    calc
      (value.map f).map g = value.map (g ∘ f) := value.map_map g f
      _ = value.map (fun id ↦ id) := Value.map_congr (hcopies.inverse _ hvalue)
      _ = value := congrFun Value.map_id value
  constructor
  · exact fun id hid ↦ hcopies.inverse id (hids hid)
  · exact fun id hid ↦ hcopies.origin id (hids hid)
  · intro value hvalue
    refine ⟨(hcopies.defined value (hids hvalue)).1, ?_⟩
    simp only [hinverse value (hids hvalue)]
  · intro value _ hvalue
    obtain ⟨howner, hmem⟩ := hown value hvalue
    rw [(hcopies.defined value howner).1]
    refine ⟨hmem, ?_⟩
    simp only [hinverse value howner]

end Copies

theorem map_mem_blockArgs {ι κ : Type} (f : ι → κ) {label : BlockId ι} {numArgs : ℕ}
    {value : Value ι} (hvalue : value ∈ blockArgs label numArgs) :
    value.map f ∈ blockArgs (label.map f) numArgs := by
  obtain ⟨i, hi, rfl⟩ := hvalue
  exact ⟨i, hi, rfl⟩

theorem map_mem_opResults {ι κ : Type} (f : ι → κ) {op : ι} {numResults : ℕ} {value : Value ι}
    (hvalue : value ∈ opResults op numResults) :
    value.map f ∈ opResults (f op) numResults := by
  obtain ⟨i, hi, rfl⟩ := hvalue
  exact ⟨i, hi, rfl⟩

namespace Converts

variable {forms : OpName → Prop} {ρ ρ' : Value OpId → Value ℕ} {visible visible' : Set (Value OpId)}
  {code : List (Op ℕ)} {code' : List (Op OpId)}

/-- A copy of converted code is converted. -/
theorem subst (hconv : Converts forms ρ visible code code') {f g : OpId → OpId}
    {v : Value OpId → Value OpId}
    (hcopies : Copies f g v ρ ρ' visible visible' (defsOps code') (uses code')) :
    Converts forms ρ' visible' code (substOps f v code') := by
  induction hconv generalizing ρ' visible' with
  | nil => exact .nil
  | @plain ρ visible n id name attr operands numResults rest rest' bodies hform hcapture hpack
      hparams hid hresults hargs hvisible hbodies hrest ihbodies ihrest =>
    have hdefs : id :: (bodies.flatMap fun body ↦ defsOps body.2.2) ++ defsOps rest' =
        defsOps (.mk id name attr operands numResults []
          (entryRegions id 0 (bodies.map fun body ↦ (body.1, body.2.2))) :: rest') := by
      simp only [defsOps, Op.defs, defsRegions_entryRegions, List.flatMap_map]
    have huses := mem_uses_entryRegions id name attr operands numResults [] rest'
      (bodies.map fun body ↦ (body.1, body.2.2))
    have hmem : id ∈ id :: (bodies.flatMap fun body ↦ defsOps body.2.2) ++ defsOps rest' := by simp
    have hoperands : operands.map ρ = (operands.map v).map ρ' := by
      rw [List.map_map]
      apply List.map_congr_left
      intro value hvalue
      have huse := (huses value).mpr (.inl hvalue)
      exact (hcopies.scope value huse (hvisible value hvalue)).2.symm
    have hregions : substRegions f v
        (entryRegions id 0 (bodies.map fun body ↦ (body.1, body.2.2))) =
        entryRegions (f id) 0 ((bodies.map fun body ↦
          (body.1, body.2.1, substOps f v body.2.2)).map fun body ↦ (body.1, body.2.2)) := by
      simp only [substRegions_entryRegions, List.map_map, Function.comp_def]
    have hsource : bodies.map (fun body ↦ (body.1, body.2.1)) = (bodies.map fun body ↦
        (body.1, body.2.1, substOps f v body.2.2)).map fun body ↦ (body.1, body.2.1) := by
      simp only [List.map_map, Function.comp_def]
    rw [substOps, Op.subst, List.map_nil, hoperands, hregions, hsource]
    rw [← hdefs] at hcopies
    apply plain _ hform hcapture hpack
    · intro hname params hattr body hbody
      obtain ⟨source, hsource, rfl⟩ := List.mem_map.mp hbody
      exact hparams hname params hattr source hsource
    · rw [hcopies.origin id hmem, hid]
    · intro i
      rw [← hresults i]
      exact (hcopies.defined (.res id i) hmem).2
    · intro r i
      rw [← hargs r i]
      exact (hcopies.defined (.arg (.entry id r) i) hmem).2
    · intro value hvalue
      obtain ⟨operand, hoperand, rfl⟩ := List.mem_map.mp hvalue
      have huse := (huses operand).mpr (.inl hoperand)
      exact (hcopies.scope operand huse (hvisible operand hoperand)).1
    · intro r body hbody
      rw [List.getElem?_map, Option.map_eq_some_iff] at hbody
      obtain ⟨body, hbody, rfl⟩ := hbody
      have hmemBody := List.mem_of_getElem? hbody
      apply ihbodies r body hbody
      apply hcopies.extend
      · intro id' hid'
        exact List.mem_append_left _ (.tail _ (List.mem_flatMap.mpr ⟨body, hmemBody, hid'⟩))
      · intro value hvalue
        exact (huses value).mpr (.inr (.inl ⟨_, List.mem_map.mpr ⟨body, hmemBody, rfl⟩, hvalue⟩))
      · intro value hvalue
        rw [owner_of_blockArgs hvalue]
        exact ⟨hmem, map_mem_blockArgs f hvalue⟩
    · apply ihrest
      apply hcopies.extend
      · exact List.subset_append_right _ _
      · exact fun value hvalue ↦ (huses value).mpr (.inr (.inr hvalue))
      · intro value hvalue
        rw [owner_of_opResults hvalue]
        exact ⟨hmem, map_mem_opResults f hvalue⟩
  | @functionDefCapture ρ visible n id params captures body body' rest rest' ρ₁ hform hid hresults
      hvisible hcaptures hparams hfree hbody hrest ihbody ihrest =>
    have hdefs : id :: id :: defsOps body' ++ defsOps rest' = defsOps
        (.mk id .function_def_capture (.strs params) captures 1 []
          [[.mk (.new id 0) (captures.length + params.length) body']] :: rest') := by
      simp [defsOps, Op.defs, defsRegions, defsBlocks, Blk.defs]
    have huses := mem_uses_block id .function_def_capture (.strs params) captures 1 [] rest'
      (.new id 0) (captures.length + params.length) body'
    have hmem : id ∈ id :: id :: defsOps body' ++ defsOps rest' := by simp
    have hscope : ∀ capture ∈ captures, v capture ∈ visible' ∧ ρ' (v capture) = ρ capture :=
      fun capture hcapture ↦ hcopies.scope capture ((huses capture).mpr (.inl hcapture))
        (hvisible capture hcapture)
    have hown : ∀ value ∈ blockArgs (.new id 0) (captures.length + params.length),
        value.owner ∈ id :: id :: defsOps body' ++ defsOps rest' ∧
          value.map f ∈ blockArgs (.new (f id) 0) (captures.length + params.length) := by
      intro value hvalue
      rw [owner_of_blockArgs hvalue]
      exact ⟨hmem, map_mem_blockArgs f hvalue⟩
    have hmap : (captures.map v).map ρ' = captures.map ρ := by
      rw [List.map_map]
      exact List.map_congr_left fun capture hcapture ↦ (hscope capture hcapture).2
    rw [← hdefs] at hcopies
    have hlength : (captures.map v).length = captures.length := List.length_map v
    rw [← hlength] at hown
    simp only [substOps, Op.subst, List.map_nil, substRegions, substBlocks, Blk.subst,
      BlockId.map]
    rw [← hlength]
    apply functionDefCapture (fun value ↦ ρ₁ (value.map g)) hform
    · rw [hcopies.origin id hmem, hid]
    · intro i
      rw [← hresults i]
      exact (hcopies.defined (.res id i) hmem).2
    · intro value hvalue
      obtain ⟨capture, hcapture, rfl⟩ := List.mem_map.mp hvalue
      exact (hscope capture hcapture).1
    · intro i capture hcapture
      rw [List.getElem?_map, Option.map_eq_some_iff] at hcapture
      obtain ⟨capture, hcapture, rfl⟩ := hcapture
      rw [(hscope capture (List.mem_of_getElem? hcapture)).2, ← hcaptures i capture hcapture]
      simp only [Value.map, BlockId.map, hcopies.inverse id hmem]
    · intro i
      rw [← hparams i, hlength]
      simp only [Value.map, BlockId.map, hcopies.inverse id hmem]
    · rw [hmap]
      exact hfree
    · rw [hlength] at hown ⊢
      apply ihbody
      apply hcopies.nested _ hown
      intro id' hid'
      simp [hid']
    · apply ihrest
      apply hcopies.extend
      · exact List.subset_append_right _ _
      · exact fun value hvalue ↦ (huses value).mpr (.inr (.inr hvalue))
      · intro value hvalue
        rw [owner_of_opResults hvalue]
        exact ⟨hmem, map_mem_opResults f hvalue⟩
  | @packFunc ρ visible n id params captures caps args body body' rest rest' ρ₁ hform hid hcaps
      hargs hresults hvisible hcaptures hparams hfree hbody hrest ihbody ihrest =>
    have hdefs : id :: id :: caps :: args :: defsOps body' ++ defsOps rest' = defsOps
        (.mk id .pack_func .none captures 1 [] [[.mk (.new id 1) 2 (
          create caps .get_captures [.arg (.new id 1) 0] captures.length ::
          create args .unpack [.arg (.new id 1) 1] params.length :: body')]] :: rest') := by
      simp [defsOps, Op.defs, defsRegions, defsBlocks, Blk.defs, create]
    have huses := mem_uses_block id .pack_func .none captures 1 [] rest' (.new id 1) 2
      (create caps .get_captures [.arg (.new id 1) 0] captures.length ::
        create args .unpack [.arg (.new id 1) 1] params.length :: body')
    rw [← hdefs] at hcopies
    have hmem : id ∈ id :: id :: caps :: args :: defsOps body' ++ defsOps rest' := by simp
    have hmemCaps : caps ∈ id :: id :: caps :: args :: defsOps body' ++ defsOps rest' := by simp
    have hmemArgs : args ∈ id :: id :: caps :: args :: defsOps body' ++ defsOps rest' := by simp
    have hscope : ∀ capture ∈ captures, v capture ∈ visible' ∧ ρ' (v capture) = ρ capture :=
      fun capture hcapture ↦ hcopies.scope capture ((huses capture).mpr (.inl hcapture))
        (hvisible capture hcapture)
    have hentry : ∀ i, v (.arg (.new id 1) i) = .arg (.new (f id) 1) i :=
      fun i ↦ (hcopies.defined (.arg (.new id 1) i) hmem).1
    have hmap : (captures.map v).map ρ' = captures.map ρ := by
      rw [List.map_map]
      exact List.map_congr_left fun capture hcapture ↦ (hscope capture hcapture).2
    have hlength : (captures.map v).length = captures.length := List.length_map v
    simp only [substOps, Op.subst, List.map_nil, List.map_cons, substRegions, substBlocks,
      Blk.subst, BlockId.map, create, hentry]
    rw [← hlength]
    apply packFunc (fun value ↦ ρ₁ (value.map g)) hform
    · rw [hcopies.origin id hmem, hid]
    · rw [hcopies.origin caps hmemCaps, hcaps]
    · rw [hcopies.origin args hmemArgs, hargs]
    · intro i
      rw [← hresults i]
      exact (hcopies.defined (.res id i) hmem).2
    · intro value hvalue
      obtain ⟨capture, hcapture, rfl⟩ := List.mem_map.mp hvalue
      exact (hscope capture hcapture).1
    · intro i capture hcapture
      rw [List.getElem?_map, Option.map_eq_some_iff] at hcapture
      obtain ⟨capture, hcapture, rfl⟩ := hcapture
      rw [(hscope capture (List.mem_of_getElem? hcapture)).2, ← hcaptures i capture hcapture]
      simp only [Value.map, hcopies.inverse caps hmemCaps]
    · intro i
      rw [← hparams i]
      simp only [Value.map, hcopies.inverse args hmemArgs]
    · rw [hmap]
      exact hfree
    · rw [hlength]
      apply ihbody
      apply hcopies.nested
      · intro id' hid'
        simp [hid']
      · rintro value (hvalue | hvalue)
        · rw [owner_of_opResults hvalue]
          exact ⟨hmemCaps, .inl (map_mem_opResults f hvalue)⟩
        · rw [owner_of_opResults hvalue]
          exact ⟨hmemArgs, .inr (map_mem_opResults f hvalue)⟩
    · apply ihrest
      apply hcopies.extend
      · exact List.subset_append_right _ _
      · exact fun value hvalue ↦ (huses value).mpr (.inr (.inr hvalue))
      · intro value hvalue
        rw [owner_of_opResults hvalue]
        exact ⟨hmem, map_mem_opResults f hvalue⟩

end Converts

end DeclarativeMlir.Lua
