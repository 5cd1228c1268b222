import DeclarativeMlir.Lua.ClosureSteps
import DeclarativeMlir.Lua.CaptureSlots
import Mathlib.Logic.Relation

/-!
# Closure conversion of a program

Every function of a program becomes a `luaopt.pack_func` over the values it uses from outside,
in whatever order the functions are converted.
-/

namespace DeclarativeMlir.Lua

/-! ## Source programs -/

/-- Ops of the generator: operands are in scope, and a function has a block argument for every
parameter. -/
inductive Scoped : Set (Value ℕ) → List (Op ℕ) → Prop where
  | nil {visible} : Scoped visible []
  | cons {visible n name attr operands numResults rest} (bodies : List (ℕ × List (Op ℕ)))
      (hcapture : name ≠ .function_def_capture) (hpack : name ≠ .pack_func)
      (hparams : name = .function_def → ∀ params, attr = .strs params →
        ∀ body ∈ bodies, body.1 = params.length)
      (hvisible : ∀ value ∈ operands, value ∈ visible)
      (hbodies : ∀ r body, bodies[r]? = some body →
        Scoped (blockArgs (.entry n r) body.1 ∪ visible) body.2)
      (hrest : Scoped (opResults n numResults ∪ visible) rest) :
      Scoped visible (.mk n name attr operands numResults [] (entryRegions n 0 bodies) :: rest)

theorem origin_map_src (value : Value ℕ) : (value.map OpId.src).map OpId.origin = value := by
  calc
    (value.map OpId.src).map OpId.origin = value.map (OpId.origin ∘ OpId.src) := value.map_map _ _
    _ = value := congrFun Value.map_id value

/-- Before closure conversion no function is converted. -/
theorem Scoped.converts {forms : OpName → Prop} (hform : forms .function_def)
    {visible : Set (Value ℕ)} {code : List (Op ℕ)} (hscoped : Scoped visible code)
    {visible' : Set (Value OpId)} (hvisible : ∀ value ∈ visible, value.map OpId.src ∈ visible') :
    Converts forms (Value.map OpId.origin) visible' code (mapOps .src code) := by
  induction hscoped generalizing visible' with
  | nil => exact .nil
  | @cons visible n name attr operands numResults rest bodies hcapture hpack hparams hoperands
      hbodies hrest ihbodies ihrest =>
    have hoperandsMap : operands = (operands.map (Value.map OpId.src)).map
        (Value.map OpId.origin) := by
      simp only [List.map_map, Function.comp_def, origin_map_src, List.map_id']
    have hsource : bodies = (bodies.map fun body ↦ (body.1, body.2, mapOps OpId.src body.2)).map
        fun body ↦ (body.1, body.2.1) := by
      simp only [List.map_map, Function.comp_def, Prod.mk.eta, List.map_id']
    have htarget : substRegions OpId.src (Value.map OpId.src) (entryRegions n 0 bodies) =
        entryRegions (.src n) 0 ((bodies.map fun body ↦
          (body.1, body.2, mapOps OpId.src body.2)).map fun body ↦ (body.1, body.2.2)) := by
      simp only [substRegions_entryRegions, List.map_map, Function.comp_def, mapOps]
    rw [mapOps, substOps, Op.subst, List.map_nil, htarget]
    nth_rewrite 1 [hoperandsMap]
    nth_rewrite 1 [hsource]
    have horigin : (OpId.src n).origin = n := rfl
    apply Converts.plain _ (fun _ ↦ hform) hcapture hpack _ horigin
    · exact fun i ↦ rfl
    · exact fun r i ↦ rfl
    · intro value hvalue
      obtain ⟨operand, hoperand, rfl⟩ := List.mem_map.mp hvalue
      exact hvisible operand (hoperands operand hoperand)
    · intro r body hbody
      rw [List.getElem?_map, Option.map_eq_some_iff] at hbody
      obtain ⟨body, hbody, rfl⟩ := hbody
      apply ihbodies r body hbody
      rintro value (hvalue | hvalue)
      · exact .inl (map_mem_blockArgs OpId.src hvalue)
      · exact .inr (hvisible value hvalue)
    · apply ihrest
      rintro value (hvalue | hvalue)
      · exact .inl (map_mem_opResults OpId.src hvalue)
      · exact .inr (hvisible value hvalue)
    · intro hname params hattr body hbody
      obtain ⟨source, hsource, rfl⟩ := List.mem_map.mp hbody
      exact hparams hname params hattr source hsource

/-! ## Runs of the patterns -/

section

variable {forms : OpName → Prop} {ρ : Value OpId → Value ℕ} {visible : Set (Value OpId)}
  {ancestors : List (BlockId OpId)} {code : List (Op ℕ)} {ops ops' : List (Op OpId)}

theorem CaptureStep.converts (hstep : CaptureStep ancestors ops ops')
    (hform : forms .function_def_capture) (hscope : InScope ancestors visible code)
    (hconv : Converts forms ρ visible code ops) : Converts forms ρ visible code ops' := by
  obtain ⟨_, rfl, hkeeps⟩ := hstep.keeps
    (fun ancestors visible ρ source op op' hscope hop ⟨captures, hcaptures, hrewrite⟩ ↦
      hop.explicitCapture hscope hform hcaptures hrewrite)
    (by
      rintro id name operands numResults (rfl | rfl) <;>
        exact ⟨rfl, fun _ _ ⟨_, _, hrewrite⟩ ↦ by contradiction⟩) [] ops (by simp) rfl
  exact hkeeps ρ visible code hscope hconv

theorem ArgPackStep.converts (hstep : ArgPackStep ancestors ops ops')
    (hform : forms .pack_func) (hscope : InScope ancestors visible code)
    (hconv : Converts forms ρ visible code ops) : Converts forms ρ visible code ops' := by
  obtain ⟨_, rfl, hkeeps⟩ := hstep.keeps
    (fun ancestors visible ρ source op op' hscope hop hrewrite ↦
      hop.argPackFunctionDef hscope hform hrewrite)
    (by
      rintro id name operands numResults (rfl | rfl) <;>
        exact ⟨rfl, fun _ _ hrewrite ↦ by contradiction⟩) [] ops (by simp) rfl
  exact hkeeps ρ visible code hscope hconv

theorem converts_of_captureSteps
    (hsteps : Relation.ReflTransGen (CaptureStep ancestors) ops ops')
    (hform : forms .function_def_capture) (hscope : InScope ancestors visible code)
    (hconv : Converts forms ρ visible code ops) : Converts forms ρ visible code ops' := by
  induction hsteps with
  | refl => exact hconv
  | tail _ hstep ih => exact hstep.converts hform hscope ih

theorem converts_of_argPackSteps
    (hsteps : Relation.ReflTransGen (ArgPackStep ancestors) ops ops')
    (hform : forms .pack_func) (hscope : InScope ancestors visible code)
    (hconv : Converts forms ρ visible code ops) : Converts forms ρ visible code ops' := by
  induction hsteps with
  | refl => exact hconv
  | tail _ hstep ih => exact hstep.converts hform hscope ih

end

/-! ## The converted program -/

/-- The body of a `luaopt.pack_func` unpacks its two arguments, and uses nothing from outside. -/
def ClosedPackFunc (op : Op OpId) : Prop :=
  ∃ id captures entry caps args numParams body,
    let ops := create caps .get_captures [.arg entry 0] captures.length ::
      create args .unpack [.arg entry 1] numParams :: body
    op = .mk id .pack_func .none captures 1 [] [[.mk entry 2 ops]] ∧
      ∀ value ∈ uses ops, value ∈ blockArgs entry 2 ∨ value.owner ∈ (walkOps ops).map Op.id

/-- Where the function of `op` is entered with the capture made for it, the results of its
`lua.get_captures` are the cells of its captures. -/
def ReadsCaptures (op : Op OpId) : Prop :=
  ∀ (C : Type) (s t : CaptureState C) name makeCapture rest entry numArgs getCaptures body made
    capture got vals,
    lowerFunctionDef name op =
        some (makeCapture :: rest, name, [.mk entry numArgs (getCaptures :: body)]) →
      expandMakeCapture makeCapture = some (made, capture) →
      expandGetCaptures getCaptures = some (got, vals) →
      t.memory (t.arrays (.arg entry 0)) = (s.run made).memory ((s.run made).arrays capture) →
      vals.map (t.run got).cells = op.operands.map s.cells

theorem ClosedPackFunc.readsCaptures {op : Op OpId} (hop : ClosedPackFunc op) :
    ReadsCaptures op := by
  obtain ⟨id, captures, entry, caps, args, numParams, body, rfl, -⟩ := hop
  intro C s t name makeCapture rest entry' numArgs getCaptures body' made capture got vals hlower
    hmake hget harray
  simp only [lowerFunctionDef, Option.some.injEq, Prod.mk.injEq, List.cons.injEq, Blk.mk.injEq,
    and_true, true_and] at hlower
  obtain ⟨⟨rfl, -⟩, rfl, -, rfl, -⟩ := hlower
  exact CaptureState.run_captures s t hmake hget harray

namespace Converts

variable {forms forms' : OpName → Prop} {ρ : Value OpId → Value ℕ} {visible : Set (Value OpId)}
  {code : List (Op ℕ)} {code' : List (Op OpId)}

theorem closedPackFunc (hconv : Converts forms ρ visible code code') :
    ∀ op ∈ walkOps code', op.name = .pack_func → ClosedPackFunc op := by
  induction hconv with
  | nil => simp [walkOps]
  | plain bodies hform hcapture hpack hparams hid hresults hargs hvisible hbodies hrest ihbodies
      ihrest =>
    intro op hop hname
    simp only [walkOps, Op.walk, walkRegions_entryRegions, List.mem_append, List.mem_cons,
      List.mem_flatMap, List.mem_map, exists_exists_and_eq_and] at hop
    rcases hop with (rfl | ⟨body, hbody, hop⟩) | hop
    · exact absurd hname hpack
    · obtain ⟨r, hr⟩ := List.mem_iff_getElem?.mp hbody
      exact ihbodies r body hr op hop hname
    · exact ihrest op hop hname
  | functionDefCapture ρ' hform hid hresults hvisible hcaptures hparams hfree hbody hrest ihbody
      ihrest =>
    intro op hop hname
    simp only [walkOps, Op.walk, walkRegions, walkBlocks, Blk.walk, List.append_nil,
      List.mem_append, List.mem_cons] at hop
    rcases hop with (rfl | hop) | hop
    · contradiction
    · exact ihbody op hop hname
    · exact ihrest op hop hname
  | @packFunc ρ visible n id params captures caps args body body' rest rest' ρ' hform hid hcaps
      hargs hresults hvisible hcaptures hparams hfree hbody hrest ihbody ihrest =>
    intro op hop hname
    simp only [walkOps, Op.walk, walkRegions, walkBlocks, Blk.walk, create, List.append_nil,
      List.nil_append, List.mem_append, List.mem_cons, List.cons_append] at hop
    rcases hop with rfl | rfl | rfl | hop | hop
    · refine ⟨id, captures, _, caps, args, params.length, body', rfl, fun value hvalue ↦ ?_⟩
      simp only [mem_uses_create, List.mem_singleton] at hvalue
      simp only [walkOps, Op.walk, walkRegions, create, List.map_append, List.map_cons,
        List.map_nil, List.mem_append, List.mem_cons, Op.id_mk]
      rcases hvalue with rfl | rfl | hvalue
      · exact .inl ⟨0, by omega, rfl⟩
      · exact .inl ⟨1, by omega, rfl⟩
      · rcases hbody.uses_subset value hvalue with (hcap | harg) | hdef
        · exact .inr (.inl (.inl (owner_of_opResults hcap)))
        · exact .inr (.inr (.inl (.inl (owner_of_opResults harg))))
        · exact .inr (.inr (.inr (hbody.defs_subset _ hdef)))
    · contradiction
    · contradiction
    · exact ihbody op hop hname
    · exact ihrest op hop hname

/-- Only the forms of functions that occur need be allowed. -/
theorem restrict (hconv : Converts forms ρ visible code code')
    (hforms : ∀ op ∈ walkOps code', forms op.name → forms' op.name) :
    Converts forms' ρ visible code code' := by
  induction hconv with
  | nil => exact .nil
  | plain bodies hform hcapture hpack hparams hid hresults hargs hvisible hbodies hrest ihbodies
      ihrest =>
    simp only [walkOps, Op.walk, walkRegions_entryRegions, List.mem_append, List.mem_cons,
      List.mem_flatMap, List.mem_map, exists_exists_and_eq_and] at hforms
    apply plain bodies _ hcapture hpack hparams hid hresults hargs hvisible
    · intro r body hbody
      apply ihbodies r body hbody
      exact fun op hop ↦ hforms op (.inl (.inr ⟨body, List.mem_of_getElem? hbody, hop⟩))
    · exact ihrest fun op hop ↦ hforms op (.inr hop)
    · rintro rfl
      exact hforms _ (.inl (.inl rfl)) (hform rfl)
  | functionDefCapture ρ' hform hid hresults hvisible hcaptures hparams hfree hbody hrest ihbody
      ihrest =>
    simp only [walkOps, Op.walk, walkRegions, walkBlocks, Blk.walk, List.append_nil,
      List.mem_append, List.mem_cons] at hforms
    have hform' := hforms _ (.inl (.inl rfl)) hform
    exact functionDefCapture ρ' hform' hid hresults hvisible hcaptures hparams hfree
      (ihbody fun op hop ↦ hforms op (.inl (.inr hop))) (ihrest fun op hop ↦ hforms op (.inr hop))
  | packFunc ρ' hform hid hcaps hargs hresults hvisible hcaptures hparams hfree hbody hrest ihbody
      ihrest =>
    simp only [walkOps, Op.walk, walkRegions, walkBlocks, Blk.walk, create, List.append_nil,
      List.nil_append, List.mem_append, List.mem_cons, List.cons_append] at hforms
    have hform' := hforms _ (.inl rfl) hform
    exact packFunc ρ' hform' hid hcaps hargs hresults hvisible hcaptures hparams hfree
      (ihbody fun op hop ↦ hforms op (.inr (.inr (.inr (.inl hop)))))
      (ihrest fun op hop ↦ hforms op (.inr (.inr (.inr (.inr hop)))))

end Converts

/-- `local x; function (p) return function () x = p end end`, without the `lua.ret` ops -/
def nestedFunctions : List (Op ℕ) := [
  .mk 0 .alloc (.str "x") [] 1 [] [],
  .mk 1 .function_def (.strs ["p"]) [] 1 [] (entryRegions 1 0 [(1, [
    .mk 2 .function_def (.strs []) [] 1 [] (entryRegions 2 0 [(0, [
      .mk 3 .copy .none [.res 0 0, .arg (.entry 1 0) 0] 0 [] []])])])])]

/-- The inner function is captured first. -/
def innerCaptured : List (Op OpId) := [
  .mk (.src 0) .alloc (.str "x") [] 1 [] [],
  .mk (.src 1) .function_def (.strs ["p"]) [] 1 [] [[.mk (.entry (.src 1) 0) 1 [
    .mk (.src 2) .function_def_capture (.strs []) [.res (.src 0) 0, .arg (.entry (.src 1) 0) 0] 1
      [] [[.mk (.new (.src 2) 0) 2 [
        .mk (.clone (.src 3)) .copy .none
          [.arg (.new (.src 2) 0) 0, .arg (.new (.src 2) 0) 1] 0 [] []]]]]]]]

def bothCaptured : List (Op OpId) := [
  .mk (.src 0) .alloc (.str "x") [] 1 [] [],
  .mk (.src 1) .function_def_capture (.strs ["p"]) [.res (.src 0) 0] 1 []
    [[.mk (.new (.src 1) 0) 2 [
      .mk (.clone (.src 2)) .function_def_capture (.strs [])
        [.arg (.new (.src 1) 0) 0, .arg (.new (.src 1) 0) 1] 1 []
        [[.mk (.new (.clone (.src 2)) 0) 2 [
          .mk (.clone (.clone (.src 3))) .copy .none
            [.arg (.new (.clone (.src 2)) 0) 0, .arg (.new (.clone (.src 2)) 0) 1] 0 [] []]]]]]]]

/-- The outer function is packed first. -/
def outerPacked : List (Op OpId) :=
  let inner := OpId.clone (.clone (.src 2))
  [.mk (.src 0) .alloc (.str "x") [] 1 [] [],
    .mk (.src 1) .pack_func .none [.res (.src 0) 0] 1 [] [[.mk (.new (.src 1) 1) 2 [
      create (.new (.src 1) 0) .get_captures [.arg (.new (.src 1) 1) 0] 1,
      create (.new (.src 1) 1) .unpack [.arg (.new (.src 1) 1) 1] 1,
      .mk inner .function_def_capture (.strs [])
        [.res (.new (.src 1) 0) 0, .res (.new (.src 1) 1) 0] 1 []
        [[.mk (.new inner 0) 2 [
          .mk (.clone (.clone (.clone (.src 3)))) .copy .none
            [.arg (.new inner 0) 0, .arg (.new inner 0) 1] 0 [] []]]]]]]]

def bothPacked : List (Op OpId) :=
  let inner := OpId.clone (.clone (.src 2))
  [.mk (.src 0) .alloc (.str "x") [] 1 [] [],
    .mk (.src 1) .pack_func .none [.res (.src 0) 0] 1 [] [[.mk (.new (.src 1) 1) 2 [
      create (.new (.src 1) 0) .get_captures [.arg (.new (.src 1) 1) 0] 1,
      create (.new (.src 1) 1) .unpack [.arg (.new (.src 1) 1) 1] 1,
      .mk inner .pack_func .none [.res (.new (.src 1) 0) 0, .res (.new (.src 1) 1) 0] 1 []
        [[.mk (.new inner 1) 2 [
          create (.new inner 0) .get_captures [.arg (.new inner 1) 0] 2,
          create (.new inner 1) .unpack [.arg (.new inner 1) 1] 0,
          .mk (.clone (.clone (.clone (.clone (.src 3))))) .copy .none
            [.res (.new inner 0) 0, .res (.new inner 0) 1] 0 [] []]]]]]]]

theorem scoped_nestedFunctions : Scoped ∅ nestedFunctions := by
  apply Scoped.cons [] (by simp) (by simp) (by simp) (by simp) (by simp)
  apply Scoped.cons _ (by simp) (by simp) (by simp) (by simp) _ .nil
  intro r body hbody
  match r, hbody with
  | 0, rfl =>
    apply Scoped.cons _ (by simp) (by simp) (by simp) (by simp) _ .nil
    intro r body hbody
    match r, hbody with
    | 0, rfl =>
      apply Scoped.cons [] (by simp) (by simp) (by simp) _ (by simp) .nil
      intro value hvalue
      simp only [List.mem_cons, List.not_mem_nil, or_false] at hvalue
      rcases hvalue with rfl | rfl
      · exact .inr (.inr (.inl ⟨0, by omega, rfl⟩))
      · exact .inr (.inl ⟨0, by omega, rfl⟩)

theorem captureStep_inner : CaptureStep [] (mapOps .src nestedFunctions) innerCaptured := by
  apply RewriteAt.later
  apply RewriteAt.inside (.src 1) .function_def (.strs ["p"]) [] 1 [] (.entry (.src 1) 0) 1 [] []
  apply RewriteAt.here
  refine ⟨[.res (.src 0) 0, .arg (.entry (.src 1) 0) 0], ⟨by decide, fun value ↦ ?_⟩, rfl⟩
  change value ∈ [Value.res (.src 0) 0, .arg (.entry (.src 1) 0) 0] ↔
    value ∈ [Value.res (.src 0) 0, .arg (.entry (.src 1) 0) 0] ∧ _
  refine ⟨fun hvalue ↦ ⟨hvalue, ?_⟩, And.left⟩
  simp only [List.mem_cons, List.not_mem_nil, or_false] at hvalue
  rcases hvalue with rfl | rfl
  · change OpId.src 0 ∉ [OpId.src 3]
    decide
  · change BlockId.entry (OpId.src 1) 0 ∈ [BlockId.entry (OpId.src 1) 0]
    decide

theorem captureStep_outer : CaptureStep [] innerCaptured bothCaptured := by
  apply RewriteAt.later
  apply RewriteAt.here
  refine ⟨[.res (.src 0) 0], ⟨by decide, fun value ↦ ?_⟩, rfl⟩
  change value ∈ [Value.res (.src 0) 0] ↔
    value ∈ [Value.res (.src 0) 0, .arg (.entry (.src 1) 0) 0, .arg (.new (.src 2) 0) 0,
      .arg (.new (.src 2) 0) 1] ∧ _
  simp only [List.mem_cons, List.not_mem_nil, or_false]
  constructor
  · rintro rfl
    refine ⟨.inl rfl, ?_⟩
    change OpId.src 0 ∉ [OpId.src 2, .clone (.src 3)]
    decide
  · rintro ⟨rfl | rfl | rfl | rfl, hcapture⟩
    · rfl
    · exact absurd hcapture List.not_mem_nil
    · exact absurd hcapture List.not_mem_nil
    · exact absurd hcapture List.not_mem_nil

end DeclarativeMlir.Lua
