import DeclarativeMlir.Library.LexicalScope
import DeclarativeMlir.Lua.AllocVisitor

/-!
# The scoping rules of Lua

What every name of a program refers to by the rules of Lua. A local variable is visible behind the
statement that declares it until the end of the block, the name of a local function in its body as
well. Parameters and loop variables are visible in their bodies, the locals of a `repeat` body in
its condition. Any other name is global.
-/

namespace DeclarativeMlir.Lua

open LexicalScope

inductive Declaration where
  /-- the `i`-th name of the local statement `n` -/
  | localName (n i : ℕ)
  /-- the `i`-th parameter or loop variable of `n` -/
  | param (n i : ℕ)
  deriving DecidableEq, Repr

def Declaration.node : Declaration → ℕ
  | .localName n _ | .param n _ => n

abbrev ScopeTree := Tree ℕ String Declaration

namespace Scoping

/-- The declarations of the names in a list, which are told apart by their places. -/
def declare (d : ℕ → Declaration) (names : List String) : List (String × Declaration) :=
  names.zipIdx.map fun (x, i) ↦ (x, d i)

def localNames (n : ℕ) (names : List String) : List (String × Declaration) :=
  declare (.localName n) names

def params (n : ℕ) (names : List String) : List (String × Declaration) :=
  declare (.param n) names

theorem map_fst_declare (d : ℕ → Declaration) (names : List String) :
    (declare d names).map Prod.fst = names := by
  rw [declare, List.map_map]
  exact List.zipIdx_map_fst 0 names

theorem map_snd_declare (d : ℕ → Declaration) (names : List String) :
    (declare d names).map Prod.snd = (List.range names.length).map d := by
  have hindices : names.zipIdx.map Prod.snd = List.range names.length := by
    rw [List.zipIdx_map_snd, List.range_eq_range']
  rw [declare, List.map_map, ← hindices, List.map_map]
  rfl

/-- The body of a function or a loop with its own variables. -/
def scopeOf (n : ℕ) (names : List String) (body : ScopeTree) : ScopeTree :=
  .block (.seq (.bind false (params n names) .skip) body)

mutual

def var : Var → ScopeTree
  | .name n x => .use n x
  | .index _ tbl key => .seq (exp tbl) (exp key)

def exp : Exp → ScopeTree
  | .literal _ _ => .skip
  | .unary _ _ val => exp val
  | .binary _ _ lhs rhs => .seq (exp lhs) (exp rhs)
  | .var v => var v
  | .paren e => exp e
  | .call _ fcn args => .seq (exp fcn) (explist args)
  | .table _ fields => tableconstructor fields
  | .functiondef body => functiondef body

def varlist : List Var → ScopeTree
  | [] => .skip
  | v :: vs => .seq (var v) (varlist vs)

def explist : List Exp → ScopeTree
  | [] => .skip
  | e :: es => .seq (exp e) (explist es)

def tableconstructor : List Field → ScopeTree
  | [] => .skip
  | .keyed _ key val :: fields => .seq (.seq (exp key) (exp val)) (tableconstructor fields)
  | .named _ _ val :: fields | .positional _ val :: fields =>
    .seq (exp val) (tableconstructor fields)

def functiondef : Funcbody → ScopeTree
  | .mk n names body => scopeOf n names (block body)

def block : Block → ScopeTree
  | .mk stats none => statlist stats
  | .mk stats (some exps) => .seq (statlist stats) (explist exps)

def statlist : List Stat → ScopeTree
  | [] => .skip
  | s :: ss => .seq (stat s) (statlist ss)

def stat : Stat → ScopeTree
  | .assignlist _ vars exps => .seq (varlist vars) (explist exps)
  | .functioncall _ fcn args => .seq (exp fcn) (explist args)
  | .whileloop _ cond body => .seq (.block (exp cond)) (.block (statlist body))
  | .repeatloop _ body cond => .block (.seq (statlist body) (.block (exp cond)))
  | .conditionalchain _ cond ifblock elseblock =>
    .seq (exp cond) (.seq (.block (block ifblock)) (.block (block elseblock)))
  | .numericfor n x lower upper step body =>
    .seq (.seq (.seq (exp lower) (exp upper)) (stepExp step)) (scopeOf n [x] (statlist body))
  | .genericfor n names exps body => .seq (explist exps) (scopeOf n names (statlist body))
  | .namedfunctiondef n x body => .seq (functiondef body) (.use n x)
  | .localnamedfunctiondef n x body => .bind true (localNames n [x]) (functiondef body)
  | .localvarlist n names exps => .bind false (localNames n names) (explist exps)

def stepExp : Option Exp → ScopeTree
  | some e => exp e
  | none => .skip

end

end Scoping

/-! ## Nodes of the syntax tree -/

namespace Nodes

mutual

def var : Var → List ℕ
  | .name n _ => [n]
  | .index n tbl key => n :: (exp tbl ++ exp key)

def exp : Exp → List ℕ
  | .literal n _ => [n]
  | .unary n _ val => n :: exp val
  | .binary n _ lhs rhs => n :: (exp lhs ++ exp rhs)
  | .var v => var v
  | .paren e => exp e
  | .call n fcn args => n :: (exp fcn ++ explist args)
  | .table n fields => n :: tableconstructor fields
  | .functiondef body => functiondef body

def varlist : List Var → List ℕ
  | [] => []
  | v :: vs => var v ++ varlist vs

def explist : List Exp → List ℕ
  | [] => []
  | e :: es => exp e ++ explist es

def tableconstructor : List Field → List ℕ
  | [] => []
  | .keyed n key val :: fields => n :: (exp key ++ exp val) ++ tableconstructor fields
  | .named n _ val :: fields | .positional n val :: fields =>
    n :: exp val ++ tableconstructor fields

def functiondef : Funcbody → List ℕ
  | .mk n _ body => n :: block body

def block : Block → List ℕ
  | .mk stats none => statlist stats
  | .mk stats (some exps) => statlist stats ++ explist exps

def statlist : List Stat → List ℕ
  | [] => []
  | s :: ss => stat s ++ statlist ss

def stat : Stat → List ℕ
  | .assignlist n vars exps => n :: (varlist vars ++ explist exps)
  | .functioncall n fcn args => n :: (exp fcn ++ explist args)
  | .whileloop n cond body => n :: (exp cond ++ statlist body)
  | .repeatloop n body cond => n :: (statlist body ++ exp cond)
  | .conditionalchain n cond ifblock elseblock =>
    n :: (exp cond ++ (block ifblock ++ block elseblock))
  | .numericfor n _ lower upper step body =>
    exp lower ++ exp upper ++ stepExp step ++ n :: statlist body
  | .genericfor n _ exps body => explist exps ++ n :: statlist body
  | .namedfunctiondef n _ body => functiondef body ++ [n]
  | .localnamedfunctiondef n _ body => n :: functiondef body
  | .localvarlist n _ exps => n :: explist exps

def stepExp : Option Exp → List ℕ
  | some e => exp e
  | none => []

end

end Nodes

/-! ## Declarations are named after nodes -/

/-- The declarations in `t` are distinct and belong to `nodes`. -/
structure DeclaresIn (nodes : List ℕ) (t : ScopeTree) : Prop where
  nodup : t.decls.Nodup
  node_mem : ∀ d ∈ t.decls, d.node ∈ nodes

namespace DeclaresIn

variable {nodes nodes' : List ℕ} {s t : ScopeTree} {n : ℕ}

theorem of_decls_eq_nil (h : t.decls = []) : DeclaresIn nodes t := by
  constructor <;> simp [h]

theorem mono (h : DeclaresIn nodes t) (hsub : nodes ⊆ nodes') : DeclaresIn nodes' t :=
  ⟨h.nodup, fun d hd ↦ hsub (h.node_mem d hd)⟩

theorem cons (h : DeclaresIn nodes t) : DeclaresIn (n :: nodes) t :=
  h.mono (List.subset_cons_self n nodes)

theorem block (h : DeclaresIn nodes t) : DeclaresIn nodes (.block t) := ⟨h.nodup, h.node_mem⟩

theorem seq (hnodup : (nodes ++ nodes').Nodup) (hs : DeclaresIn nodes s)
    (ht : DeclaresIn nodes' t) : DeclaresIn (nodes ++ nodes') (.seq s t) := by
  rw [List.nodup_append] at hnodup
  constructor
  · rw [Tree.decls, List.nodup_append]
    refine ⟨hs.nodup, ht.nodup, ?_⟩
    intro d hd d' hd' heq
    apply hnodup.2.2 _ (hs.node_mem d hd) _ (ht.node_mem d' hd')
    rw [heq]
  · intro d hd
    rw [Tree.decls, List.mem_append] at hd
    rw [List.mem_append]
    exact hd.imp (hs.node_mem d) (ht.node_mem d)

/-- Declarations of the node `n` itself. -/
theorem bind {d : ℕ → Declaration} (hinjective : Function.Injective d)
    (hnode : ∀ i, (d i).node = n) (recursive : Bool) (names : List String)
    (hn : (n :: nodes).Nodup) (ht : DeclaresIn nodes t) :
    DeclaresIn (n :: nodes) (.bind recursive (Scoping.declare d names) t) := by
  rw [List.nodup_cons] at hn
  constructor
  · rw [Tree.decls, Scoping.map_snd_declare, List.nodup_append]
    refine ⟨List.nodup_range.map hinjective, ht.nodup, ?_⟩
    intro _ hd d' hd' heq
    obtain ⟨i, -, rfl⟩ := List.mem_map.mp hd
    apply hn.1
    rw [← hnode i, heq]
    exact ht.node_mem d' hd'
  · intro d' hd
    rw [Tree.decls, Scoping.map_snd_declare, List.mem_append] at hd
    rcases hd with hd | hd
    · obtain ⟨i, -, rfl⟩ := List.mem_map.mp hd
      rw [hnode i]
      exact List.mem_cons_self
    · exact List.mem_cons_of_mem n (ht.node_mem d' hd)

theorem localNames (recursive : Bool) (names : List String) (hn : (n :: nodes).Nodup)
    (ht : DeclaresIn nodes t) :
    DeclaresIn (n :: nodes) (.bind recursive (Scoping.localNames n names) t) :=
  bind (d := .localName n) (fun _ _ heq ↦ (Declaration.localName.inj heq).2) (fun _ ↦ rfl)
    recursive names hn ht

theorem scopeOf (names : List String) (hn : (n :: nodes).Nodup) (ht : DeclaresIn nodes t) :
    DeclaresIn (n :: nodes) (Scoping.scopeOf n names t) := by
  have hparams : DeclaresIn [n] (.bind false (Scoping.params n names) .skip : ScopeTree) :=
    bind (d := .param n) (fun _ _ heq ↦ (Declaration.param.inj heq).2) (fun _ ↦ rfl)
      false names (List.nodup_singleton n) (.of_decls_eq_nil rfl)
  have hseq := seq hn hparams ht
  exact ⟨hseq.nodup, hseq.node_mem⟩

end DeclaresIn

namespace Scoping

mutual

theorem declaresIn_var : (v : Var) → (Nodes.var v).Nodup → DeclaresIn (Nodes.var v) (var v)
  | .name n x, _ => .of_decls_eq_nil rfl
  | .index n tbl key, hnodup => by
    have hrest := (List.nodup_cons.mp hnodup).2
    have hparts := List.nodup_append.mp hrest
    exact (DeclaresIn.seq hrest (declaresIn_exp tbl hparts.1)
      (declaresIn_exp key hparts.2.1)).cons

theorem declaresIn_exp : (e : Exp) → (Nodes.exp e).Nodup → DeclaresIn (Nodes.exp e) (exp e)
  | .literal n value, _ => .of_decls_eq_nil rfl
  | .unary n op val, hnodup => (declaresIn_exp val (List.nodup_cons.mp hnodup).2).cons
  | .binary n op lhs rhs, hnodup => by
    have hrest := (List.nodup_cons.mp hnodup).2
    have hparts := List.nodup_append.mp hrest
    exact (DeclaresIn.seq hrest (declaresIn_exp lhs hparts.1)
      (declaresIn_exp rhs hparts.2.1)).cons
  | .var v, hnodup => declaresIn_var v hnodup
  | .paren e, hnodup => declaresIn_exp e hnodup
  | .call n fcn args, hnodup => by
    have hrest := (List.nodup_cons.mp hnodup).2
    have hparts := List.nodup_append.mp hrest
    exact (DeclaresIn.seq hrest (declaresIn_exp fcn hparts.1)
      (declaresIn_explist args hparts.2.1)).cons
  | .table n fields, hnodup =>
    (declaresIn_tableconstructor fields (List.nodup_cons.mp hnodup).2).cons
  | .functiondef body, hnodup => declaresIn_functiondef body hnodup

theorem declaresIn_varlist : (vs : List Var) → (Nodes.varlist vs).Nodup →
    DeclaresIn (Nodes.varlist vs) (varlist vs)
  | [], _ => .of_decls_eq_nil rfl
  | v :: vs, hnodup => by
    have hparts := List.nodup_append.mp hnodup
    exact DeclaresIn.seq hnodup (declaresIn_var v hparts.1) (declaresIn_varlist vs hparts.2.1)

theorem declaresIn_explist : (es : List Exp) → (Nodes.explist es).Nodup →
    DeclaresIn (Nodes.explist es) (explist es)
  | [], _ => .of_decls_eq_nil rfl
  | e :: es, hnodup => by
    have hparts := List.nodup_append.mp hnodup
    exact DeclaresIn.seq hnodup (declaresIn_exp e hparts.1) (declaresIn_explist es hparts.2.1)

theorem declaresIn_tableconstructor : (fields : List Field) →
    (Nodes.tableconstructor fields).Nodup →
    DeclaresIn (Nodes.tableconstructor fields) (tableconstructor fields)
  | [], _ => .of_decls_eq_nil rfl
  | .keyed n key val :: fields, hnodup => by
    have hrest := (List.nodup_cons.mp hnodup).2
    have hparts := List.nodup_append.mp hrest
    have hfield := List.nodup_append.mp hparts.1
    exact (DeclaresIn.seq hrest (DeclaresIn.seq hparts.1 (declaresIn_exp key hfield.1)
      (declaresIn_exp val hfield.2.1)) (declaresIn_tableconstructor fields hparts.2.1)).cons
  | .named n _ val :: fields, hnodup | .positional n val :: fields, hnodup => by
    have hrest := (List.nodup_cons.mp hnodup).2
    have hparts := List.nodup_append.mp hrest
    exact (DeclaresIn.seq hrest (declaresIn_exp val hparts.1)
      (declaresIn_tableconstructor fields hparts.2.1)).cons

theorem declaresIn_functiondef : (body : Funcbody) → (Nodes.functiondef body).Nodup →
    DeclaresIn (Nodes.functiondef body) (functiondef body)
  | .mk n names body, hnodup =>
    .scopeOf names hnodup (declaresIn_block body (List.nodup_cons.mp hnodup).2)

theorem declaresIn_block : (b : Block) → (Nodes.block b).Nodup →
    DeclaresIn (Nodes.block b) (block b)
  | .mk stats none, hnodup => declaresIn_statlist stats hnodup
  | .mk stats (some exps), hnodup => by
    have hparts := List.nodup_append.mp hnodup
    exact DeclaresIn.seq hnodup (declaresIn_statlist stats hparts.1)
      (declaresIn_explist exps hparts.2.1)

theorem declaresIn_statlist : (ss : List Stat) → (Nodes.statlist ss).Nodup →
    DeclaresIn (Nodes.statlist ss) (statlist ss)
  | [], _ => .of_decls_eq_nil rfl
  | s :: ss, hnodup => by
    have hparts := List.nodup_append.mp hnodup
    exact DeclaresIn.seq hnodup (declaresIn_stat s hparts.1) (declaresIn_statlist ss hparts.2.1)

theorem declaresIn_stat : (s : Stat) → (Nodes.stat s).Nodup → DeclaresIn (Nodes.stat s) (stat s)
  | .assignlist n vars exps, hnodup => by
    have hrest := (List.nodup_cons.mp hnodup).2
    have hparts := List.nodup_append.mp hrest
    exact (DeclaresIn.seq hrest (declaresIn_varlist vars hparts.1)
      (declaresIn_explist exps hparts.2.1)).cons
  | .functioncall n fcn args, hnodup => by
    have hrest := (List.nodup_cons.mp hnodup).2
    have hparts := List.nodup_append.mp hrest
    exact (DeclaresIn.seq hrest (declaresIn_exp fcn hparts.1)
      (declaresIn_explist args hparts.2.1)).cons
  | .whileloop n cond body, hnodup => by
    have hrest := (List.nodup_cons.mp hnodup).2
    have hparts := List.nodup_append.mp hrest
    exact (DeclaresIn.seq hrest (declaresIn_exp cond hparts.1).block
      (declaresIn_statlist body hparts.2.1).block).cons
  | .repeatloop n body cond, hnodup => by
    have hrest := (List.nodup_cons.mp hnodup).2
    have hparts := List.nodup_append.mp hrest
    exact (DeclaresIn.seq hrest (declaresIn_statlist body hparts.1)
      (declaresIn_exp cond hparts.2.1).block).block.cons
  | .conditionalchain n cond ifblock elseblock, hnodup => by
    have hrest := (List.nodup_cons.mp hnodup).2
    have hparts := List.nodup_append.mp hrest
    have hblocks := List.nodup_append.mp hparts.2.1
    exact (DeclaresIn.seq hrest (declaresIn_exp cond hparts.1)
      (DeclaresIn.seq hparts.2.1 (declaresIn_block ifblock hblocks.1).block
        (declaresIn_block elseblock hblocks.2.1).block)).cons
  | .numericfor n x lower upper step body, hnodup => by
    have hparts := List.nodup_append.mp hnodup
    have hlimits := List.nodup_append.mp hparts.1
    have hbounds := List.nodup_append.mp hlimits.1
    have hbody := (List.nodup_cons.mp hparts.2.1).2
    exact DeclaresIn.seq hnodup
      (DeclaresIn.seq hparts.1
        (DeclaresIn.seq hlimits.1 (declaresIn_exp lower hbounds.1)
          (declaresIn_exp upper hbounds.2.1))
        (declaresIn_stepExp step hlimits.2.1))
      (.scopeOf [x] hparts.2.1 (declaresIn_statlist body hbody))
  | .genericfor n names exps body, hnodup => by
    have hparts := List.nodup_append.mp hnodup
    have hbody := (List.nodup_cons.mp hparts.2.1).2
    exact DeclaresIn.seq hnodup (declaresIn_explist exps hparts.1)
      (.scopeOf names hparts.2.1 (declaresIn_statlist body hbody))
  | .namedfunctiondef n x body, hnodup => by
    have hparts := List.nodup_append.mp hnodup
    exact DeclaresIn.seq hnodup (declaresIn_functiondef body hparts.1) (.of_decls_eq_nil rfl)
  | .localnamedfunctiondef n x body, hnodup =>
    .localNames true [x] hnodup (declaresIn_functiondef body (List.nodup_cons.mp hnodup).2)
  | .localvarlist n names exps, hnodup =>
    .localNames false names hnodup (declaresIn_explist exps (List.nodup_cons.mp hnodup).2)

theorem declaresIn_stepExp : (step : Option Exp) → (Nodes.stepExp step).Nodup →
    DeclaresIn (Nodes.stepExp step) (stepExp step)
  | some e, hnodup => declaresIn_exp e hnodup
  | none, _ => .of_decls_eq_nil rfl

end

end Scoping

end DeclarativeMlir.Lua
