import DeclarativeMlir.Lua.ClosureSemantics

/-!
# Closure conversion step by step

Either rewrite, applied to one function, keeps the code converted, and so does a rewrite at any
place of a nest.
-/

namespace DeclarativeMlir.Lua

/-! ## Scopes -/

/-- What is known where `code` stands: its identities are unique, and the values in scope and the
blocks around belong to other ops. -/
structure InScope (ancestors : List (BlockId OpId)) (visible : Set (Value OpId))
    (code : List (Op ℕ)) : Prop where
  nodup : (defsOps code).Nodup
  arg_mem : ∀ label i, .arg label i ∈ visible → label ∈ ancestors
  visible_fresh : ∀ value ∈ visible, value.owner.origin ∉ defsOps code
  ancestors_fresh : ∀ label ∈ ancestors, label.owner.origin ∉ defsOps code

namespace InScope

variable {ancestors : List (BlockId OpId)} {visible own : Set (Value OpId)} {op : Op ℕ}
  {code body : List (Op ℕ)}

theorem sublist (hscope : InScope ancestors visible code)
    (hsub : (defsOps body).Sublist (defsOps code)) : InScope ancestors visible body where
  nodup := hsub.nodup hscope.nodup
  arg_mem := hscope.arg_mem
  visible_fresh value hvalue hmem := hscope.visible_fresh value hvalue (hsub.subset hmem)
  ancestors_fresh label hlabel hmem := hscope.ancestors_fresh label hlabel (hsub.subset hmem)

theorem head (hscope : InScope ancestors visible (op :: code)) :
    InScope ancestors visible [op] := by
  apply hscope.sublist
  simp [defsOps]

/-- Behind an op its results are in scope. -/
theorem rest (hscope : InScope ancestors visible (op :: code)) {id : OpId} {numResults : ℕ}
    (hid : id.origin ∈ op.defs) :
    InScope ancestors (opResults id numResults ∪ visible) code := by
  have hnodup := hscope.nodup
  rw [defsOps, List.nodup_append] at hnodup
  have hrest : InScope ancestors visible code := hscope.sublist (by simp [defsOps])
  apply InScope.mk hrest.nodup _ _ hrest.ancestors_fresh
  · rintro label i (⟨j, -, hvalue⟩ | hvalue)
    · contradiction
    · exact hscope.arg_mem label i hvalue
  · rintro value (hvalue | hvalue)
    · rw [owner_of_opResults hvalue]
      exact fun hmem ↦ hnodup.2.2 _ hid _ hmem rfl
    · exact hrest.visible_fresh value hvalue

/-- In a block of op `id`, whose arguments are in scope besides the values `visible'`. -/
theorem block {visible' : Set (Value OpId)} (hscope : InScope ancestors visible code) (id : OpId)
    (hsub : (id.origin :: defsOps body).Sublist (defsOps code)) {label : BlockId OpId}
    (hlabel : label.owner.origin = id.origin)
    (hvisible : ∀ value ∈ visible', value ∈ visible ∨ value.owner.origin = id.origin ∧
      ∀ label' i, value = .arg label' i → label' = label) :
    InScope (label :: ancestors) visible' body := by
  have hnodup := hsub.nodup hscope.nodup
  rw [List.nodup_cons] at hnodup
  have hbody : InScope ancestors visible body :=
    hscope.sublist ((List.sublist_cons_self _ _).trans hsub)
  constructor
  · exact hnodup.2
  · intro label' i hvalue
    rcases hvisible _ hvalue with hvalue | ⟨-, hvalue⟩
    · exact List.mem_cons_of_mem _ (hscope.arg_mem label' i hvalue)
    · rw [hvalue label' i rfl]
      exact List.mem_cons_self
  · intro value hvalue
    rcases hvisible value hvalue with hvalue | ⟨hvalue, -⟩
    · exact hbody.visible_fresh value hvalue
    · rw [hvalue]
      exact hnodup.1
  · intro label' hmem
    rcases List.mem_cons.mp hmem with rfl | hmem
    · rw [hlabel]
      exact hnodup.1
    · exact hbody.ancestors_fresh label' hmem

end InScope

/-! ## Copying the body of a function -/

/-- The original of a clone. -/
def OpId.unclone : OpId → OpId
  | .clone op => op
  | op => op

/-- A value of a copied body, where `bound` gives what the values defined in front of it hold. -/
def copiedValue (ρ : Value OpId → Value ℕ) (bound : Value OpId → Option (Value ℕ))
    (value : Value OpId) : Value ℕ :=
  (bound value).getD (ρ (value.map OpId.unclone))

theorem copyInto_none (bvm : List (Value OpId × Value OpId)) (body : List (Op OpId)) :
    copyInto none bvm body = substOps (cloneIds body) (lookupOrDefault bvm body) body := by
  have hfilter : body.filter (fun op ↦ some op.name != none) = body :=
    List.filter_eq_self.mpr fun _ _ ↦ rfl
  simp only [copyInto, hfilter]

theorem cloneIds_of_mem {body : List (Op OpId)} {id : OpId} (hid : id ∈ defsOps body) :
    cloneIds body id = .clone id := by
  simp [cloneIds, hid, Naming.clone]

/-- A copy of a body is converted if the mapping binds the values the body uses from outside. -/
theorem Converts.copyInto {forms : OpName → Prop} {ρ : Value OpId → Value ℕ}
    {visible visible' : Set (Value OpId)} {body : List (Op ℕ)} {body' : List (Op OpId)}
    (hbody : Converts forms ρ visible body body') {bvm : List (Value OpId × Value OpId)}
    {bound : Value OpId → Option (Value ℕ)}
    (hpairs : ∀ pair ∈ bvm, pair.1.owner ∉ defsOps body' ∧ pair.2 ∈ visible' ∧
      copiedValue ρ bound pair.2 = ρ pair.1)
    (hkeys : ∀ value ∈ uses body', value ∈ visible → ∃ pair ∈ bvm, value = pair.1)
    (hbound : ∀ value : Value OpId, value.owner.origin ∈ defsOps body → bound value = none) :
    Converts forms (copiedValue ρ bound) visible' body (Lua.copyInto none bvm body') := by
  rw [copyInto_none]
  apply hbody.subst (g := OpId.unclone)
  constructor
  · intro id hid
    rw [cloneIds_of_mem hid, OpId.unclone]
  · intro id hid
    rw [cloneIds_of_mem hid, OpId.origin]
  · intro value hvalue
    constructor
    · have hlookup : bvm.lookup value = none := by
        rw [List.lookup_eq_none_iff]
        intro pair hpair
        rw [bne_iff_ne]
        rintro rfl
        exact (hpairs pair hpair).1 hvalue
      rw [lookupOrDefault, hlookup, Option.getD_none]
    · have hcopy : (value.map (cloneIds body')).map OpId.unclone = value := by
        calc
          (value.map (cloneIds body')).map OpId.unclone =
              value.map (OpId.unclone ∘ cloneIds body') := value.map_map _ _
          _ = value.map (fun id ↦ id) := by
            apply Value.map_congr
            rw [Function.comp_apply, cloneIds_of_mem hvalue, OpId.unclone]
          _ = value := congrFun Value.map_id value
      have hnone : bound (value.map (cloneIds body')) = none := by
        apply hbound
        rw [Value.owner_map, cloneIds_of_mem hvalue, OpId.origin]
        exact hbody.origin_mem _ hvalue
      rw [copiedValue, hnone, Option.getD_none, hcopy]
  · intro value huse hvalue
    obtain ⟨pair, hpair, hkey⟩ := hkeys value huse hvalue
    have hsome : (bvm.lookup value).isSome :=
      List.lookup_isSome_iff.mpr ⟨pair, hpair, by simp [hkey]⟩
    obtain ⟨image', himage⟩ := Option.isSome_iff_exists.mp hsome
    obtain ⟨before, after, hbvm, -⟩ := List.lookup_eq_some_iff.mp himage
    have hmem : (value, image') ∈ bvm := by simp [hbvm]
    rw [lookupOrDefault, himage, Option.getD_some]
    exact (hpairs _ hmem).2

/-! ## One rewrite -/

section

variable {forms : OpName → Prop} {ρ : Value OpId → Value ℕ} {visible : Set (Value OpId)}
  {ancestors : List (BlockId OpId)} {source : Op ℕ} {op op' : Op OpId}

/-- A `lua.function_def` in converted code is not converted yet. -/
theorem Converts.functionDef_inv {id : OpId} {params : List String} {prev : BlockId OpId}
    {numArgs : ℕ} {body' : List (Op OpId)}
    (hconv : Converts forms ρ visible [source]
      [.mk id .function_def (.strs params) [] 1 [] [[.mk prev numArgs body']]]) :
    ∃ body, source = .mk id.origin .function_def (.strs params) [] 1 []
        [[.mk (.entry id.origin 0) params.length body]] ∧
      prev = .entry id 0 ∧ numArgs = params.length ∧ (∀ i, ρ (.res id i) = .res id.origin i) ∧
      (∀ i, ρ (.arg (.entry id 0) i) = .arg (.entry id.origin 0) i) ∧
      Converts forms ρ (blockArgs (.entry id 0) params.length ∪ visible) body body' := by
  generalize hcode : [Op.mk id .function_def (.strs params) [] 1 [] [[.mk prev numArgs body']]] =
    code' at hconv
  cases hconv with
  | plain bodies hform hcapture hpack hparams hid hresults hargs hvisible hbodies hrest =>
    cases hrest
    simp only [List.cons.injEq, Op.mk.injEq, and_true, true_and] at hcode
    obtain ⟨rfl, rfl, rfl, rfl, rfl, hregions⟩ := hcode
    match bodies, hregions with
    | [(_, body, _)], hregions =>
      simp only [List.map_cons, List.map_nil, entryRegions, List.cons.injEq, Blk.mk.injEq,
        and_true] at hregions
      obtain ⟨rfl, rfl, rfl⟩ := hregions
      have hlength : numArgs = params.length := hparams rfl params rfl _ List.mem_cons_self
      subst hid hlength
      exact ⟨body, rfl, rfl, rfl, hresults, hargs 0, hbodies 0 _ rfl⟩
  | functionDefCapture ρ' hform hid hresults hvisible hcaptures hparams hfree hbody hrest =>
    simp at hcode
  | packFunc ρ' hform hid hcaps hargs hresults hvisible hcaptures hparams hfree hbody hrest =>
    simp at hcode

/-- What the arguments of the entry block of a `lua.function_def_capture` hold. -/
def captureBound (ρ : Value OpId → Value ℕ) (id : OpId) (captures : List (Value OpId)) :
    Value OpId → Option (Value ℕ)
  | .res _ _ => none
  | .arg label i =>
    if label = .new id 0 then
      some (((captures[i]?).map ρ).getD (.arg (.entry id.origin 0) (i - captures.length)))
    else none

theorem captureBound_eq_none (captures : List (Value OpId)) {id : OpId} {value : Value OpId}
    (hvalue : value.owner.origin ≠ id.origin) : captureBound ρ id captures value = none := by
  cases value with
  | res op i => rfl
  | arg label i =>
    have hlabel : label ≠ .new id 0 := by
      rintro rfl
      exact hvalue rfl
    rw [captureBound, if_neg hlabel]

theorem copiedValue_capture {id : OpId} {captures : List (Value OpId)} {i : ℕ}
    {capture : Value OpId} (hcapture : captures[i]? = some capture) :
    copiedValue ρ (captureBound ρ id captures) (.arg (.new id 0) i) = ρ capture := by
  simp [copiedValue, captureBound, hcapture]

theorem copiedValue_param (id : OpId) (captures : List (Value OpId)) (i : ℕ) :
    copiedValue ρ (captureBound ρ id captures) (.arg (.new id 0) (captures.length + i)) =
      .arg (.entry id.origin 0) i := by
  simp [copiedValue, captureBound]

/-- `explicitCapture` keeps a function converted. -/
theorem Converts.explicitCapture (hconv : Converts forms ρ visible [source] [op])
    (hscope : InScope ancestors visible [source]) (hform : forms .function_def_capture)
    {captures : List (Value OpId)} (hcaptures : CaptureList ancestors op captures)
    (hop : Lua.explicitCapture captures op = some op') :
    Converts forms ρ visible [source] [op'] ∧ op'.id = op.id ∧ op'.numResults = op.numResults := by
  unfold Lua.explicitCapture at hop
  split at hop
  case h_2 => contradiction
  case h_1 id params prev numArgs body' =>
  obtain rfl := Option.some.inj hop
  refine ⟨?_, rfl, rfl⟩
  obtain ⟨body, rfl, rfl, rfl, hresults, hargs, hbody⟩ := hconv.functionDef_inv
  have hdefs : id.origin ∉ defsOps body := by
    have hnodup := hscope.nodup
    simp only [defsOps, Op.defs, defsRegions, defsBlocks, Blk.defs, List.append_nil] at hnodup
    exact (List.nodup_cons.mp hnodup).1
  have hfresh : ∀ id' ∈ defsOps body', id'.origin ∈ defsOps [Op.mk id.origin .function_def
      (.strs params) [] 1 [] [[.mk (.entry id.origin 0) params.length body]]] := by
    intro id' hid'
    simp [defsOps, Op.defs, defsRegions, defsBlocks, Blk.defs, hbody.origin_mem id' hid']
  have huses : ∀ value ∈ uses body', value ∈ uses [Op.mk id .function_def (.strs params) [] 1 []
      [[.mk (.entry id 0) params.length body']]] :=
    fun value hvalue ↦ (mem_uses_block _ _ _ _ _ _ _ _ _ _ _).mpr (.inr (.inl hvalue))
  -- the test of `collectCaptures` passes the values in scope only
  have houter : ∀ value ∈ captures, value.owner ∉ defsOps body' := by
    intro value hvalue hdef
    have htest := ((hcaptures.mem_iff value).mp hvalue).2
    cases value with
    | res definingOp i =>
      apply htest
      simpa [Op.descendants, walkRegions, walkBlocks, Blk.walk] using
        hbody.defs_subset definingOp hdef
    | arg owner i => exact hscope.ancestors_fresh owner htest (hfresh _ hdef)
  have hparam : ∀ value ∈ blockArgs (.entry id 0) params.length, value ∉ captures := by
    rintro value ⟨i, -, rfl⟩ hvalue
    have hancestor : BlockId.entry id 0 ∈ ancestors := ((hcaptures.mem_iff _).mp hvalue).2
    apply hscope.ancestors_fresh _ hancestor
    simp [defsOps, Op.defs, BlockId.owner]
  have hvisible : ∀ value ∈ captures, value ∈ visible := by
    intro value hvalue
    have huse := ((hcaptures.mem_iff value).mp hvalue).1
    rw [mem_uses_block] at huse
    simp only [List.not_mem_nil, false_or, uses, walkOps, List.flatMap_nil, or_false] at huse
    rcases hbody.uses_subset value huse with (harg | hscoped) | hdef
    · exact absurd hvalue (hparam value harg)
    · exact hscoped
    · exact absurd hdef (houter value hvalue)
  have hcaptured : ∀ value ∈ uses body', value ∈ visible → value ∈ captures := by
    intro value huse hvalue
    rw [hcaptures.mem_iff]
    refine ⟨huses value huse, ?_⟩
    cases value with
    | res definingOp i =>
      intro hdescendant
      apply hscope.visible_fresh _ hvalue
      obtain ⟨nested, hnested, rfl⟩ := List.mem_map.mp hdescendant
      have hdef : nested.id ∈ defsOps body' := by
        simpa [defsRegions, defsBlocks, Blk.defs] using
          id_mem_defsRegions_of_mem_walk _ hnested
      exact hfresh _ hdef
    | arg owner i => exact hscope.arg_mem owner i hvalue
  apply functionDefCapture (copiedValue ρ (captureBound ρ id captures)) hform rfl hresults hvisible
  · exact fun i capture hcapture ↦ copiedValue_capture hcapture
  · exact copiedValue_param id captures
  · intro value huse hfree
    rw [List.mem_cons, not_or] at hfree
    obtain ⟨value', huse', harg | hvalue', rfl⟩ := hbody.exists_use value huse hfree.2
    · obtain ⟨i, -, rfl⟩ := harg
      rw [hargs] at hfree
      exact absurd rfl hfree.1
    · exact List.mem_map_of_mem (hcaptured value' huse' hvalue')
  · apply hbody.copyInto
    · intro pair hpair
      rcases List.mem_append.mp hpair with hpair | hpair
      · obtain ⟨⟨capture, i⟩, hindex, rfl⟩ := List.mem_map.mp hpair
        have hget := List.mem_zipIdx_iff_getElem?.mp hindex
        have hcapture := List.mem_of_getElem? hget
        have hlt := (List.getElem?_eq_some_iff.mp hget).1
        exact ⟨houter capture hcapture, ⟨i, by omega, rfl⟩, copiedValue_capture hget⟩
      · obtain ⟨i, hi, rfl⟩ := List.mem_map.mp hpair
        rw [List.mem_range] at hi
        refine ⟨fun hdef ↦ hdefs (hbody.origin_mem _ hdef), ⟨_, by omega, rfl⟩, ?_⟩
        rw [copiedValue_param, hargs]
    · rintro value huse (⟨i, hi, rfl⟩ | hvalue)
      · refine ⟨_, List.mem_append_right _ (List.mem_map.mpr ⟨i, List.mem_range.mpr hi, rfl⟩), rfl⟩
      · obtain ⟨i, hi⟩ := List.mem_iff_getElem?.mp (hcaptured value huse hvalue)
        have hindex : (value, i) ∈ captures.zipIdx := List.mem_zipIdx_iff_getElem?.mpr hi
        exact ⟨_, List.mem_append_left _ (List.mem_map_of_mem hindex), rfl⟩
    · intro value hvalue
      apply captureBound_eq_none
      intro heq
      rw [heq] at hvalue
      exact hdefs hvalue
  · exact .nil

/-- What a `lua.function_def_capture` in converted code keeps. -/
theorem Converts.functionDefCapture_inv {id : OpId} {params : List String}
    {captures : List (Value OpId)} {prev : BlockId OpId} {numArgs : ℕ} {body' : List (Op OpId)}
    (hconv : Converts forms ρ visible [source]
      [.mk id .function_def_capture (.strs params) captures 1 [] [[.mk prev numArgs body']]]) :
    ∃ body ρ', source = .mk id.origin .function_def (.strs params) [] 1 []
        [[.mk (.entry id.origin 0) params.length body]] ∧
      prev = .new id 0 ∧ (∀ i, ρ (.res id i) = .res id.origin i) ∧
      (∀ value ∈ captures, value ∈ visible) ∧
      (∀ i capture, captures[i]? = some capture → ρ' (.arg (.new id 0) i) = ρ capture) ∧
      (∀ i, ρ' (.arg (.new id 0) (captures.length + i)) = .arg (.entry id.origin 0) i) ∧
      (∀ value ∈ uses body, value.owner ∉ id.origin :: defsOps body → value ∈ captures.map ρ) ∧
      Converts forms ρ' (blockArgs (.new id 0) (captures.length + params.length)) body body' := by
  generalize hcode : [Op.mk id .function_def_capture (.strs params) captures 1 []
    [[.mk prev numArgs body']]] = code' at hconv
  cases hconv with
  | plain bodies hform hcapture hpack hparams hid hresults hargs hvisible hbodies hrest =>
    simp only [List.cons.injEq, Op.mk.injEq] at hcode
    exact absurd hcode.1.2.1.symm hcapture
  | functionDefCapture ρ' hform hid hresults hvisible hcaptures hparams hfree hbody hrest =>
    cases hrest
    simp only [List.cons.injEq, Op.mk.injEq, Blk.mk.injEq, Attr.strs.injEq, and_true,
      true_and] at hcode
    obtain ⟨rfl, rfl, rfl, rfl, -, rfl⟩ := hcode
    subst hid
    exact ⟨_, ρ', rfl, rfl, hresults, hvisible, hcaptures, hparams, hfree, hbody⟩
  | packFunc ρ' hform hid hcaps hargs hresults hvisible hcaptures hparams hfree hbody hrest =>
    simp at hcode

/-- What the unpacked captures and arguments of a `luaopt.pack_func` hold. -/
def packBound (ρ : Value OpId → Value ℕ) (id : OpId) (numCaptures : ℕ) :
    Value OpId → Option (Value ℕ)
  | .res op i =>
    if op = .new id 0 then some (ρ (.arg (.new id 0) i))
    else if op = .new id 1 then some (ρ (.arg (.new id 0) (numCaptures + i)))
    else none
  | .arg _ _ => none

theorem packBound_eq_none (numCaptures : ℕ) {id : OpId} {value : Value OpId}
    (hvalue : value.owner.origin ≠ id.origin) : packBound ρ id numCaptures value = none := by
  cases value with
  | arg label i => rfl
  | res op i =>
    have hop : ∀ k, op ≠ .new id k := by
      rintro k rfl
      exact hvalue rfl
    rw [packBound, if_neg (hop 0), if_neg (hop 1)]

theorem copiedValue_caps (id : OpId) (numCaptures i : ℕ) :
    copiedValue ρ (packBound ρ id numCaptures) (.res (.new id 0) i) =
      ρ (.arg (.new id 0) i) := by
  simp [copiedValue, packBound]

theorem copiedValue_args (id : OpId) (numCaptures i : ℕ) :
    copiedValue ρ (packBound ρ id numCaptures) (.res (.new id 1) i) =
      ρ (.arg (.new id 0) (numCaptures + i)) := by
  simp [copiedValue, packBound]

/-- `argPackFunctionDef` keeps a function converted. -/
theorem Converts.argPackFunctionDef (hconv : Converts forms ρ visible [source] [op])
    (hscope : InScope ancestors visible [source]) (hform : forms .pack_func)
    (hop : Lua.argPackFunctionDef op = some op') :
    Converts forms ρ visible [source] [op'] ∧ op'.id = op.id ∧ op'.numResults = op.numResults := by
  unfold Lua.argPackFunctionDef at hop
  split at hop
  case h_2 => contradiction
  case h_1 id params captures prev numArgs body' =>
  obtain rfl := Option.some.inj hop
  refine ⟨?_, rfl, rfl⟩
  obtain ⟨body, ρ', rfl, rfl, hresults, hvisible, hcaptures, hparams, hfree, hbody⟩ :=
    hconv.functionDefCapture_inv
  have hdefs : id.origin ∉ defsOps body := by
    have hnodup := hscope.nodup
    simp only [defsOps, Op.defs, defsRegions, defsBlocks, Blk.defs, List.append_nil] at hnodup
    exact (List.nodup_cons.mp hnodup).1
  have hcaps : (OpId.new id 0).origin = id.origin := rfl
  have hargs : (OpId.new id 1).origin = id.origin := rfl
  apply packFunc (copiedValue ρ' (packBound ρ' id captures.length)) hform rfl hcaps hargs hresults
    hvisible
  · intro i capture hcapture
    rw [copiedValue_caps, hcaptures i capture hcapture]
  · intro i
    rw [copiedValue_args, hparams]
  · exact hfree
  · apply hbody.copyInto
    · intro pair hpair
      rcases List.mem_append.mp hpair with hpair | hpair
      · obtain ⟨i, hi, rfl⟩ := List.mem_map.mp hpair
        rw [List.mem_range] at hi
        refine ⟨fun hdef ↦ hdefs (hbody.origin_mem _ hdef), .inl ⟨i, hi, rfl⟩, ?_⟩
        exact copiedValue_caps id captures.length i
      · obtain ⟨i, hi, rfl⟩ := List.mem_map.mp hpair
        rw [List.mem_range] at hi
        refine ⟨fun hdef ↦ hdefs (hbody.origin_mem _ hdef), .inr ⟨i, hi, rfl⟩, ?_⟩
        exact copiedValue_args id captures.length i
    · rintro value - ⟨i, hi, rfl⟩
      rcases Nat.lt_or_ge i captures.length with hlt | hge
      · exact ⟨_, List.mem_append_left _ (List.mem_map.mpr ⟨i, List.mem_range.mpr hlt, rfl⟩), rfl⟩
      · obtain ⟨j, rfl⟩ := Nat.exists_eq_add_of_le hge
        have hj : j < params.length := by omega
        exact ⟨_, List.mem_append_right _ (List.mem_map.mpr ⟨j, List.mem_range.mpr hj, rfl⟩), rfl⟩
    · intro value hvalue
      apply packBound_eq_none
      intro heq
      rw [heq] at hvalue
      exact hdefs hvalue
  · exact .nil

end

/-! ## A rewrite at any place -/

theorem entryRegions_append {ι : Type} (id : ι) (region : ℕ) (bodies : List (ℕ × List (Op ι)))
    (body : ℕ × List (Op ι)) (bodies' : List (ℕ × List (Op ι))) :
    entryRegions id region (bodies ++ body :: bodies') = entryRegions id region bodies ++
      [.mk (.entry id (region + bodies.length)) body.1 body.2] ::
        entryRegions id (region + bodies.length + 1) bodies' := by
  induction bodies generalizing region with
  | nil => rfl
  | cons first bodies ih =>
    rw [List.cons_append, entryRegions, ih, entryRegions, List.cons_append, List.length_cons,
      Nat.add_right_comm region 1, ← Nat.add_assoc]

/-- A block among the regions of an op is the block of one of them. -/
theorem exists_of_entryRegions_eq {ι : Type} {id : ι} {region : ℕ}
    {bodies : List (ℕ × List (Op ι))} {regions regions' : List (Region ι)} {label : BlockId ι}
    {numArgs : ℕ} {ops : List (Op ι)}
    (hregions : regions ++ [.mk label numArgs ops] :: regions' = entryRegions id region bodies) :
    ∃ before after, bodies = before ++ (numArgs, ops) :: after ∧
      regions = entryRegions id region before ∧ label = .entry id (region + before.length) ∧
      regions' = entryRegions id (region + before.length + 1) after := by
  induction regions generalizing region bodies with
  | nil =>
    cases bodies with
    | nil => simp [entryRegions] at hregions
    | cons body bodies =>
      simp only [entryRegions, List.nil_append, List.cons.injEq, Blk.mk.injEq, and_true] at hregions
      obtain ⟨⟨rfl, rfl, rfl⟩, rfl⟩ := hregions
      exact ⟨[], bodies, rfl, rfl, rfl, rfl⟩
  | cons first regions ih =>
    cases bodies with
    | nil => simp [entryRegions] at hregions
    | cons body bodies =>
      simp only [entryRegions, List.cons_append, List.cons.injEq] at hregions
      obtain ⟨rfl, hregions⟩ := hregions
      obtain ⟨before, after, rfl, rfl, rfl, rfl⟩ := ih hregions
      refine ⟨body :: before, after, rfl, rfl, ?_, ?_⟩ <;>
        rw [List.length_cons, Nat.add_right_comm region 1, ← Nat.add_assoc]

/-- Exchanging the element behind `before`. -/
theorem getElem?_exchange {α : Type} {before after : List α} (x : α) {y z : α} {r : ℕ}
    (hz : (before ++ y :: after)[r]? = some z) :
    (r = before.length ∧ z = y) ∨ (before ++ x :: after)[r]? = some z := by
  rw [List.getElem?_append] at hz ⊢
  split at hz
  case isTrue hlt =>
    rw [if_pos hlt]
    exact .inr hz
  case isFalse hlt =>
    rw [if_neg hlt]
    cases hsub : r - before.length with
    | zero =>
      rw [hsub, List.getElem?_cons_zero, Option.some.injEq] at hz
      exact .inl ⟨by omega, hz.symm⟩
    | succ k =>
      rw [hsub, List.getElem?_cons_succ] at hz
      exact .inr hz

section

variable {forms : OpName → Prop} {ρ : Value OpId → Value ℕ} {visible : Set (Value OpId)}
  {ancestors : List (BlockId OpId)}

theorem Converts.cons_inv {code : List (Op ℕ)} {op : Op OpId} {rest' : List (Op OpId)}
    (hconv : Converts forms ρ visible code (op :: rest')) :
    ∃ source rest, code = source :: rest ∧ op.id.origin ∈ source.defs ∧
      Converts forms ρ visible [source] [op] ∧
      Converts forms ρ (opResults op.id op.numResults ∪ visible) rest rest' := by
  cases hconv with
  | plain bodies hform hcapture hpack hparams hid hresults hargs hvisible hbodies hrest =>
    refine ⟨_, _, rfl, by simp [Op.defs, hid], ?_, hrest⟩
    exact .plain bodies hform hcapture hpack hparams hid hresults hargs hvisible hbodies .nil
  | functionDefCapture ρ' hform hid hresults hvisible hcaptures hparams hfree hbody hrest =>
    refine ⟨_, _, rfl, by simp [Op.defs, hid], ?_, hrest⟩
    exact .functionDefCapture ρ' hform hid hresults hvisible hcaptures hparams hfree hbody .nil
  | packFunc ρ' hform hid hcaps hargs hresults hvisible hcaptures hparams hfree hbody hrest =>
    refine ⟨_, _, rfl, by simp [Op.defs, hid], ?_, hrest⟩
    exact .packFunc ρ' hform hid hcaps hargs hresults hvisible hcaptures hparams hfree hbody .nil

theorem Converts.cons {source : Op ℕ} {op : Op OpId} {rest : List (Op ℕ)} {rest' : List (Op OpId)}
    (hop : Converts forms ρ visible [source] [op])
    (hrest : Converts forms ρ (opResults op.id op.numResults ∪ visible) rest rest') :
    Converts forms ρ visible (source :: rest) (op :: rest') := by
  cases hop with
  | plain bodies hform hcapture hpack hparams hid hresults hargs hvisible hbodies _ =>
    exact .plain bodies hform hcapture hpack hparams hid hresults hargs hvisible hbodies hrest
  | functionDefCapture ρ' hform hid hresults hvisible hcaptures hparams hfree hbody _ =>
    exact .functionDefCapture ρ' hform hid hresults hvisible hcaptures hparams hfree hbody hrest
  | packFunc ρ' hform hid hcaps hargs hresults hvisible hcaptures hparams hfree hbody _ =>
    exact .packFunc ρ' hform hid hcaps hargs hresults hvisible hcaptures hparams hfree hbody hrest

/-- What a rewrite leaves alone: ops without regions that are no functions. -/
def Untouched (rewrite : List (BlockId OpId) → Op OpId → Op OpId → Prop) (op : Op OpId) : Prop :=
  op.regions = [] ∧ ∀ ancestors op', ¬ rewrite ancestors op op'

/-- A rewrite of `ops` keeps code converted, also behind ops that it leaves alone. -/
def Keeps (forms : OpName → Prop) (rewrite : List (BlockId OpId) → Op OpId → Op OpId → Prop)
    (ancestors : List (BlockId OpId)) (ops ops' : List (Op OpId)) : Prop :=
  ∀ front body, (∀ op ∈ front, Untouched rewrite op) → ops = front ++ body →
    ∃ body', ops' = front ++ body' ∧ ∀ ρ visible code, InScope ancestors visible code →
      Converts forms ρ visible code body → Converts forms ρ visible code body'

theorem block_of_regions_eq {ι : Type} {regions regions' : List (Region ι)}
    {label label' : BlockId ι} {numArgs numArgs' : ℕ} {ops ops' : List (Op ι)}
    (hregions : regions ++ [.mk label numArgs ops] :: regions' = [[.mk label' numArgs' ops']]) :
    regions = [] ∧ regions' = [] ∧ label' = label ∧ numArgs' = numArgs ∧ ops' = ops := by
  cases regions with
  | nil => simp_all
  | cons region regions => simp at hregions

/-- A rewrite in a block of an op keeps the op converted. -/
theorem Converts.inside {rewrite : List (BlockId OpId) → Op OpId → Op OpId → Prop}
    (hcreated : ∀ id name operands numResults, name = .get_captures ∨ name = .unpack →
      Untouched rewrite (create id name operands numResults))
    {source : Op ℕ} {id : OpId} {name : OpName} {attr : Attr} {operands : List (Value OpId)}
    {numResults : ℕ} {regions : List (Region OpId)} {label : BlockId OpId} {numArgs : ℕ}
    {ops ops' : List (Op OpId)} {regions' : List (Region OpId)}
    (hconv : Converts forms ρ visible [source] [.mk id name attr operands numResults []
      (regions ++ [.mk label numArgs ops] :: regions')])
    (hscope : InScope ancestors visible [source])
    (hops : Keeps forms rewrite (label :: ancestors) ops ops') :
    Converts forms ρ visible [source] [.mk id name attr operands numResults []
      (regions ++ [.mk label numArgs ops'] :: regions')] := by
  generalize hcode : [Op.mk id name attr operands numResults []
    (regions ++ [.mk label numArgs ops] :: regions')] = code' at hconv
  cases hconv with
  | @plain _ _ n _ _ _ _ _ _ _ bodies hform hcapture hpack hparams hid hresults hargs hvisible
      hbodies hrest =>
    cases hrest
    simp only [List.cons.injEq, Op.mk.injEq, and_true, true_and] at hcode
    obtain ⟨rfl, rfl, rfl, rfl, rfl, hregions⟩ := hcode
    obtain ⟨before, after, hsplit, rfl, rfl, rfl⟩ := exists_of_entryRegions_eq hregions
    obtain ⟨bodies₁, bodies₂, rfl, rfl, hbodies₂⟩ := List.map_eq_append_iff.mp hsplit
    obtain ⟨⟨numArgs', body, ops₁⟩, bodies₂, rfl, hpair, rfl⟩ := List.map_eq_cons_iff.mp hbodies₂
    simp only [Prod.mk.injEq] at hpair
    obtain ⟨rfl, rfl⟩ := hpair
    have hbody := hbodies bodies₁.length (numArgs', body, ops₁) (by simp)
    obtain ⟨_, rfl, hkeeps⟩ := hops [] ops₁ (by simp) rfl
    have hsource : (bodies₁ ++ (numArgs', body, ops₁) :: bodies₂).map
        (fun body ↦ (body.1, body.2.1)) = (bodies₁ ++ (numArgs', body, ops') :: bodies₂).map
        (fun body ↦ (body.1, body.2.1)) := by
      simp only [List.map_append, List.map_cons]
    have htarget : entryRegions id 0 (bodies₁.map fun body ↦ (body.1, body.2.2)) ++
        [.mk (.entry id (0 + (bodies₁.map fun body ↦ (body.1, body.2.2)).length)) numArgs' ops'] ::
          entryRegions id (0 + (bodies₁.map fun body ↦ (body.1, body.2.2)).length + 1)
            (bodies₂.map fun body ↦ (body.1, body.2.2)) =
        entryRegions id 0 ((bodies₁ ++ (numArgs', body, ops') :: bodies₂).map
          fun body ↦ (body.1, body.2.2)) := by
      rw [List.map_append, List.map_cons, entryRegions_append]
    rw [hsource, htarget]
    apply Converts.plain _ hform hcapture hpack _ hid hresults hargs hvisible _ .nil
    · intro hname params hattr body₁ hbody₁
      rcases List.mem_append.mp hbody₁ with hbody₁ | hbody₁
      · exact hparams hname params hattr body₁ (List.mem_append_left _ hbody₁)
      · rcases List.mem_cons.mp hbody₁ with rfl | hbody₁
        · exact hparams hname params hattr (numArgs', body, ops₁) (by simp)
        · exact hparams hname params hattr body₁ (by simp [hbody₁])
    · intro r body₁ hbody₁
      rcases getElem?_exchange (numArgs', body, ops₁) hbody₁ with ⟨rfl, rfl⟩ | hbody₁
      · apply hkeeps _ _ _ _ hbody
        rw [List.length_map, Nat.zero_add]
        apply hscope.block id _ rfl
        · rintro value (hvalue | hvalue)
          · rw [owner_of_blockArgs hvalue]
            obtain ⟨i, -, rfl⟩ := hvalue
            exact .inr ⟨rfl, fun label i heq ↦ (Value.arg.inj heq).1.symm⟩
          · exact .inl hvalue
        · rw [hid]
          simp only [defsOps, Op.defs, defsRegions_entryRegions, List.append_nil, List.map_append,
            List.map_cons, List.flatMap_append, List.flatMap_cons]
          exact ((List.sublist_append_left _ _).trans (List.sublist_append_right _ _)).cons_cons n
      · exact hbodies r body₁ hbody₁
  | @functionDefCapture _ _ n _ params captures body body' _ _ ρ' hform hid hresults hvisible
      hcaptures hparams hfree hbody hrest =>
    cases hrest
    simp only [List.cons.injEq, Op.mk.injEq, and_true, true_and] at hcode
    obtain ⟨rfl, rfl, rfl, rfl, rfl, hregions⟩ := hcode
    obtain ⟨rfl, rfl, rfl, rfl, rfl⟩ := block_of_regions_eq hregions
    obtain ⟨_, rfl, hkeeps⟩ := hops [] body' (by simp) rfl
    apply Converts.functionDefCapture ρ' hform hid hresults hvisible hcaptures hparams hfree _ .nil
    apply hkeeps _ _ _ _ hbody
    subst hid
    apply hscope.block id _ rfl
    · intro value hvalue
      rw [owner_of_blockArgs hvalue]
      obtain ⟨i, -, rfl⟩ := hvalue
      exact .inr ⟨rfl, fun label i heq ↦ (Value.arg.inj heq).1.symm⟩
    · simp [defsOps, Op.defs, defsRegions, defsBlocks, Blk.defs]
  | @packFunc _ _ n _ params captures caps args body body' _ _ ρ' hform hid hcaps hargs hresults
      hvisible hcaptures hparams hfree hbody hrest =>
    cases hrest
    simp only [List.cons.injEq, Op.mk.injEq, and_true, true_and] at hcode
    obtain ⟨rfl, rfl, rfl, rfl, rfl, hregions⟩ := hcode
    obtain ⟨rfl, rfl, rfl, rfl, rfl⟩ := block_of_regions_eq hregions
    have hfront : ∀ op ∈ [create caps .get_captures [.arg (.new id 1) 0] operands.length,
        create args .unpack [.arg (.new id 1) 1] params.length], Untouched rewrite op := by
      intro op hop
      simp only [List.mem_cons, List.not_mem_nil, or_false] at hop
      rcases hop with rfl | rfl
      · exact hcreated _ _ _ _ (.inl rfl)
      · exact hcreated _ _ _ _ (.inr rfl)
    obtain ⟨_, rfl, hkeeps⟩ := hops _ body' hfront rfl
    apply Converts.packFunc ρ' hform hid hcaps hargs hresults hvisible hcaptures hparams hfree _ .nil
    apply hkeeps _ _ _ _ hbody
    subst hid
    apply hscope.block id _ rfl
    · rintro value (hvalue | hvalue)
      · rw [owner_of_opResults hvalue]
        obtain ⟨i, -, rfl⟩ := hvalue
        exact .inr ⟨hcaps, fun label i heq ↦ by contradiction⟩
      · rw [owner_of_opResults hvalue]
        obtain ⟨i, -, rfl⟩ := hvalue
        exact .inr ⟨hargs, fun label i heq ↦ by contradiction⟩
    · simp [defsOps, Op.defs, defsRegions, defsBlocks, Blk.defs]

/-- If a rewrite keeps a function converted, it does so at any place of a nest. -/
theorem RewriteAt.keeps {rewrite : List (BlockId OpId) → Op OpId → Op OpId → Prop}
    (hrewrite : ∀ ancestors visible ρ source op op', InScope ancestors visible [source] →
      Converts forms ρ visible [source] [op] → rewrite ancestors op op' →
      Converts forms ρ visible [source] [op'] ∧ op'.id = op.id ∧ op'.numResults = op.numResults)
    (hcreated : ∀ id name operands numResults, name = .get_captures ∨ name = .unpack →
      Untouched rewrite (create id name operands numResults)) {ops ops' : List (Op OpId)}
    (hstep : RewriteAt rewrite ancestors ops ops') : Keeps forms rewrite ancestors ops ops' := by
  induction hstep with
  | @here ancestors op op' rest hop =>
    intro front body hfront heq
    cases front with
    | nil =>
      refine ⟨op' :: rest, rfl, fun ρ visible code hscope hconv ↦ ?_⟩
      rw [List.nil_append] at heq
      subst heq
      obtain ⟨source, rest₁, rfl, hid, hhead, hrest⟩ := hconv.cons_inv
      obtain ⟨hhead', hid', hnum⟩ := hrewrite _ _ _ _ _ _ hscope.head hhead hop
      rw [← hid', ← hnum] at hrest
      exact hhead'.cons hrest
    | cons first front =>
      obtain ⟨rfl, -⟩ := List.cons.inj heq
      exact absurd hop ((hfront op List.mem_cons_self).2 _ _)
  | @later ancestors rest rest' op hrest ih =>
    intro front body hfront heq
    cases front with
    | nil =>
      obtain ⟨_, rfl, hkeeps⟩ := ih [] rest (by simp) rfl
      refine ⟨op :: rest', rfl, fun ρ visible code hscope hconv ↦ ?_⟩
      rw [List.nil_append] at heq
      subst heq
      obtain ⟨source, rest₁, rfl, hid, hhead, hrest⟩ := hconv.cons_inv
      exact hhead.cons (hkeeps _ _ _ (hscope.rest hid) hrest)
    | cons first front =>
      obtain ⟨rfl, htail⟩ := List.cons.inj heq
      obtain ⟨body', rfl, hkeeps⟩ :=
        ih front body (fun op' hop' ↦ hfront op' (List.mem_cons_of_mem _ hop')) htail
      exact ⟨body', rfl, hkeeps⟩
  | @inside ancestors ops ops' id name attr operands numResults regions label numArgs regions' rest
      hops ih =>
    intro front body hfront heq
    cases front with
    | nil =>
      refine ⟨_, rfl, fun ρ visible code hscope hconv ↦ ?_⟩
      rw [List.nil_append] at heq
      subst heq
      obtain ⟨source, rest₁, rfl, hid, hhead, hrest⟩ := hconv.cons_inv
      exact (hhead.inside hcreated hscope.head ih).cons hrest
    | cons first front =>
      obtain ⟨rfl, -⟩ := List.cons.inj heq
      have hregions := (hfront _ List.mem_cons_self).1
      simp at hregions

end

end DeclarativeMlir.Lua
