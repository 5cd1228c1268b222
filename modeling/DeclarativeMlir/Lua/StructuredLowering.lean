import DeclarativeMlir.Lua.LoweringSimulation

/-!
# Structured control flow to block graphs

A function body of nested `lua.cond_if` and `lua.loop_while` ops is lowered outermost first: a
pattern is applied to an op of one of the blocks, never to an op inside another. Such a lowering
always comes to an end, and the graph it ends in has the runs of the body.
-/

namespace DeclarativeMlir.Lua

open LocalExpansion EventMachine Relation

/-! ## Regions and their lines -/

theorem lines_append {ι : Type} (region region' : Region ι) :
    lines (region ++ region') = lines region ++ lines region' := by
  simp [lines]

/-- An op line lies in a block. -/
theorem exists_block_of_lines {ι : Type} {region : Region ι} {before after : List (Line ι)}
    {op : Op ι} (hlines : lines region = before ++ .op op :: after) :
    ∃ blocks label numArgs init rest blocks',
      region = blocks ++ .mk label numArgs (init ++ op :: rest) :: blocks' ∧
      before = lines blocks ++ .label label numArgs :: init.map .op ∧
      after = rest.map .op ++ lines blocks' := by
  induction region generalizing before with
  | nil => simp [lines] at hlines
  | cons block region ih =>
    obtain ⟨label, numArgs, ops⟩ := block
    have hcons : lines (.mk label numArgs ops :: region) =
        .label label numArgs :: (ops.map .op ++ lines region) := by
      simp [lines, Blk.lines]
    rw [hcons] at hlines
    cases before with
    | nil => simp at hlines
    | cons line before =>
      simp only [List.cons_append, List.cons.injEq] at hlines
      obtain ⟨rfl, hlines⟩ := hlines
      rcases List.append_eq_append_iff.mp hlines with ⟨middle, rfl, hrest⟩ | ⟨middle, hops, hafter⟩
      · obtain ⟨blocks, label', numArgs', init, rest, blocks', rfl, rfl, rfl⟩ := ih hrest
        refine ⟨.mk label numArgs ops :: blocks, label', numArgs', init, rest, blocks', rfl, ?_,
          rfl⟩
        simp [lines, Blk.lines]
      · cases middle with
        | nil =>
          have hrest : lines region = [] ++ .op op :: after := by simpa using hafter.symm
          obtain ⟨blocks, label', numArgs', init, rest, blocks', rfl, hbefore, rfl⟩ := ih hrest
          simp at hbefore
        | cons line middle =>
          simp only [List.cons_append, List.cons.injEq] at hafter
          obtain ⟨rfl, rfl⟩ := hafter
          obtain ⟨init, rest', rfl, hinit, hrest⟩ := List.map_eq_append_iff.mp hops
          obtain ⟨op', rest, rfl, hop, rfl⟩ := List.map_eq_cons_iff.mp hrest
          obtain rfl := Line.op.inj hop
          exact ⟨[], label, numArgs, init, rest, region, rfl, by simp [lines, hinit], rfl⟩

/-- Expanding a line is applying a pattern. -/
theorem exists_lowerStep {ι : Type} [DecidableEq ι] [Naming ι] {region : Region ι}
    {text : List (Line ι)} (hstep : Step expandLine (lines region) text) :
    ∃ region', LowerStep region region' ∧ lines region' = text := by
  generalize hlines : lines region = lines' at hstep
  obtain ⟨before, after, hexpand⟩ := hstep
  rename_i line symbols
  cases line with
  | label => simp [expandLine] at hexpand
  | op op =>
    obtain ⟨expansion, hlower, rfl⟩ := Option.map_eq_some_iff.mp hexpand
    obtain ⟨blocks, label, numArgs, init, rest, blocks', rfl, rfl, rfl⟩ :=
      exists_block_of_lines hlines
    refine ⟨_, .mk blocks label numArgs init rest blocks' hlower, ?_⟩
    rw [lines_append, lines_append, lines_splice]
    simp

theorem exists_lowering {ι : Type} [DecidableEq ι] [Naming ι] {region : Region ι}
    {text : List (Line ι)} (hreach : ReflTransGen (Step expandLine) (lines region) text) :
    ∃ region', ReflTransGen LowerStep region region' ∧ lines region' = text := by
  induction hreach with
  | refl => exact ⟨region, .refl, rfl⟩
  | tail _ hstep ih =>
    obtain ⟨region', hsteps, rfl⟩ := ih
    obtain ⟨region'', hstep', rfl⟩ := exists_lowerStep hstep
    exact ⟨region'', hsteps.tail hstep', rfl⟩

theorem lowering_lines {ι : Type} [DecidableEq ι] [Naming ι] {region region' : Region ι}
    (hsteps : ReflTransGen LowerStep region region') :
    ReflTransGen (Step expandLine) (lines region) (lines region') :=
  hsteps.lift lines fun _ _ h ↦ h.lines

theorem mem_lines {ι : Type} {region : Region ι} {op : Op ι} :
    Line.op op ∈ lines region ↔ ∃ block ∈ region, op ∈ block.ops := by
  simp only [lines, List.mem_flatMap]
  refine exists_congr fun block ↦ and_congr_right fun _ ↦ ?_
  cases block
  simp [Blk.lines, Blk.ops]

theorem Lowered.terminal {region : Region OpId} (hlowered : Lowered region) :
    Terminal expandLine (lines region) :=
  terminal_of_flat fun op hop ↦ by
    obtain ⟨block, hblock, hmem⟩ := mem_lines.mp hop
    exact hlowered block hblock op hmem

/-! ## The lowered function body -/

/-- The compiler's identities for source code. -/
def source (region : Region ℕ) : Region OpId := mapBlocks .src region

/-- A block of ops with one terminator, the last op. -/
def Blk.Closed (block : Blk OpId) : Prop :=
  ∃ init term, block.ops = init ++ [term] ∧ term.name.IsCfgTerminator ∧
    ∀ op ∈ init, ¬ op.name.IsTerminator

theorem Terminated.closed {text : List (Line OpId)} (htext : Terminated text)
    {label : BlockId OpId} {numArgs : ℕ} {region : Region OpId}
    (hlines : lines region = .label label numArgs :: text) : ∀ block ∈ region, block.Closed := by
  have hblocks : ∀ (init : List (Op OpId)) (region : Region OpId) (label numArgs),
      lines region = .label label numArgs :: (init.map .op ++ text) →
      (∀ op ∈ init, ¬ op.name.IsTerminator) → ∀ block ∈ region, block.Closed := by
    clear hlines
    induction htext with
    | @last term hterm =>
      intro init region label numArgs hlines hinit
      rcases region with _ | ⟨⟨id, n, ops⟩, region⟩
      · simp [lines] at hlines
      · rw [lines_cons] at hlines
        simp only [List.cons.injEq] at hlines
        have hops := congrArg headOps hlines.2
        rw [headOps_block] at hops
        have hheads : headOps (init.map .op ++ [.op term]) = init ++ [term] := by
          simpa [lines] using headOps_block (init ++ [term]) []
        have hregion : region = [] := by
          rcases region with _ | ⟨⟨id', n', ops'⟩, region⟩
          · rfl
          · have hcount := congrArg labelsOf hlines.2
            simp [labelsOf_append, lines_cons, labelsOf] at hcount
        subst hregion
        simp only [List.mem_singleton, forall_eq]
        exact ⟨init, term, hops.trans hheads, hterm, hinit⟩
    | @op op rest hop hrest ih =>
      intro init region label numArgs hlines hinit
      refine ih (init ++ [op]) region label numArgs (by simpa using hlines) ?_
      simp only [List.mem_append, List.mem_singleton]
      rintro op' (hmem | rfl)
      · exact hinit op' hmem
      · exact hop
    | @label term label' rest hterm hrest ih =>
      intro init region label numArgs hlines hinit
      rcases region with _ | ⟨⟨id, n, ops⟩, region⟩
      · simp [lines] at hlines
      · rw [lines_cons] at hlines
        simp only [List.cons.injEq] at hlines
        have hops := congrArg headOps hlines.2
        rw [headOps_block] at hops
        have hheads : headOps (init.map .op ++ .op term :: .label label' 0 :: rest) =
            init ++ [term] := by
          clear hlines hops hinit
          induction init with
          | nil => rfl
          | cons op init ih => simpa [headOps] using ih
        have hrest' : lines region = .label label' 0 :: rest := by
          have hsplit : ops.map .op ++ lines region =
              (init ++ [term]).map .op ++ .label label' 0 :: rest := by
            simpa using hlines.2
          rw [hops, hheads] at hsplit
          exact List.append_cancel_left hsplit
        intro block hblock
        rcases List.mem_cons.mp hblock with rfl | hblock
        · exact ⟨init, term, hops.trans hheads, hterm, hinit⟩
        · exact ih [] region label' 0 (by simpa using hrest') (by simp) block hblock
  exact hblocks [] region label numArgs (by simpa using hlines) (by simp)

theorem target_function (f : ℕ → OpId) (code : List (Op ℕ)) :
    target .function f code = mapOps f code := by
  induction code with
  | nil => rfl
  | cons op code ih =>
    cases code with
    | nil => rfl
    | cons op' code => rw [target_cons _ _ _ (by simp), ih]; rfl

/-- Outermost-first lowering ends, and every graph it can end in has closed blocks and exactly
the runs of the structured body. -/
theorem structured_lowering {V S : Type} (interp : Interp V S) (fn numArgs : ℕ)
    {visible : Set (Value ℕ)} {code : List (Op ℕ)}
    (hcode : StructuredCode [.ret] visible code) (hnodup : (defsOps code).Nodup) :
    (∃ graph, ReflTransGen LowerStep (source [.mk (.entry fn 0) numArgs code]) graph ∧
      Lowered graph) ∧
    ∀ graph, ReflTransGen LowerStep (source [.mk (.entry fn 0) numArgs code]) graph →
      Lowered graph →
      (∀ env store, SameRuns (Structured.step interp) ⟨code, [], env, store⟩
        (Cfg.step interp graph)
        ⟨getBlock0 graph, fun value ↦ env (value.map OpId.origin), store⟩) ∧
      ∀ block ∈ graph, block.Closed := by
  obtain ⟨u, hu, hlowered⟩ := hcode.exists_lowered hnodup .function rfl renames_src
  have hsource : lines (source [.mk (.entry fn 0) numArgs code]) =
      .label (.entry (.src fn) 0) numArgs :: (target .function .src code).map .op := by
    rw [target_function]
    simp [source, mapBlocks, substBlocks, Blk.subst, lines, Blk.lines, BlockId.map, mapOps]
  have hnormal : Normal expandLine (lines (source [.mk (.entry fn 0) numArgs code]))
      (.label (.entry (.src fn) 0) numArgs :: u) := by
    rw [hsource]
    exact Normal.cons_of_terminal rfl hu
  constructor
  · obtain ⟨graph, hsteps, hlines⟩ := exists_lowering hnormal.1
    refine ⟨graph, hsteps, fun block hblock op hop ↦ ?_⟩
    have hmem : Line.op op ∈ lines graph := mem_lines.mpr ⟨block, hblock, hop⟩
    rw [hlines] at hmem
    exact hlowered.flat op (by simpa using hmem)
  · intro graph hsteps hdone
    have hlines : lines graph = .label (.entry (.src fn) 0) numArgs :: u :=
      Normal.unique ⟨lowering_lines hsteps, hdone.terminal⟩ hnormal
    refine ⟨fun env store ↦ ?_, hlowered.terminated.closed hlines⟩
    have hlabels : (labelsOf (lines graph)).Nodup := by
      rw [hlines, labelsOf, List.nodup_cons]
      refine ⟨fun hmem ↦ ?_, hlowered.nodup⟩
      obtain ⟨n, -, hcreator⟩ := hlowered.creator _ hmem
      simp [BlockId.creator?] at hcreator
    refine (lowering_simulation interp hlabels).sameRuns ?_
    have hentry : getBlock0 graph = headOps (u ++ []) := by
      rcases graph with _ | ⟨⟨id, n, ops⟩, graph⟩
      · simp [lines] at hlines
      · rw [lines_cons, List.cons.injEq] at hlines
        rw [List.append_nil, ← hlines.2, headOps_block]
        rfl
    have hfunction : StructuredCode Exit.function.terms visible code := hcode
    rw [hentry]
    refine .running [.label (.entry (.src fn) 0) numArgs] u [] hfunction renames_src .function hu
      (by simpa using hlines) ?_
    intro value hvalue
    change env ((value.map .src).map OpId.origin) = env value
    rw [Value.map_map, renames_src.origin_comp]
    exact congrArg env (congrFun Value.map_id value)

/-- `while c do if c then return c end end; return` -/
def returnInLoop : List (Op ℕ) :=
  let c : Value ℕ := .arg (.entry 0 0) 0
  [loopWhileOp 1 .none [.mk 2 .cond .none [c] 0 [] []]
    [condIfOp 3 .none c [.mk 4 .ret .none [c] 0 [] []] [.mk 5 .end .none [] 0 [] []],
      .mk 6 .end .none [] 0 [] []],
    .mk 7 .ret .none [] 0 [] []]

theorem structuredCode_returnInLoop :
    StructuredCode [.ret] {.arg (.entry 0 0) 0} returnInLoop := by
  have hfresh : ∀ n ≠ 0, ∀ value ∈ ({.arg (.entry 0 0) 0} : Set (Value ℕ)),
      value.owner ≠ n := by
    rintro n hn value rfl
    exact fun h ↦ hn h.symm
  refine .loopWhile 1 _ (hfresh 1 (by decide)) (.condTerm 2 _ _ (by simp) rfl (hfresh 2 (by decide)))
    (.condIf 3 _ _ rfl (hfresh 3 (by decide)) ?_ ?_ ?_) ?_
  · exact .retTerm 4 _ _ (by simp) (by simp) (hfresh 4 (by decide))
  · exact .endTerm 5 _ (by simp) (hfresh 5 (by decide))
  · exact .endTerm 6 _ (by simp) (hfresh 6 (by decide))
  · exact .retTerm 7 _ _ (by simp) (by simp) (hfresh 7 (by decide))

def boolInterp : Interp Bool Unit := ⟨fun _ _ store ↦ (fun _ ↦ true, store), id, id, fun _ ↦ rfl⟩

theorem structured_lowering_returnInLoop :
    ∃ graph, ReflTransGen LowerStep (source [.mk (.entry 0 0) 1 returnInLoop]) graph ∧
      ∀ env, SameRuns (Structured.step boolInterp) ⟨returnInLoop, [], env, ()⟩
        (Cfg.step boolInterp graph)
        ⟨getBlock0 graph, fun value ↦ env (value.map OpId.origin), ()⟩ := by
  obtain ⟨⟨graph, hsteps, hlowered⟩, hruns⟩ :=
    structured_lowering boolInterp 0 1 structuredCode_returnInLoop (by decide)
  exact ⟨graph, hsteps, fun env ↦ (hruns graph hsteps hlowered).1 env ()⟩

end DeclarativeMlir.Lua
