import DeclarativeMlir.Lua.Scoping

/-!
# The scopes of variable allocation

The scope stack of `AllocVisitor` refers to the same variables as the lexical environments do, one
environment for each open scope. The visitor keeps this when it opens and closes scopes, declares a
variable, creates a global and redirects a variable to an assignment of it.
-/

namespace DeclarativeMlir.Lua

open LexicalScope

abbrev ScopeEnv := Env String Declaration

/-- The cells of the globals that have been used. -/
abbrev Globals := String → Option (Value OpId)

/-- The alloc or block argument of a declaration. -/
def Declaration.cell : Declaration → Value OpId
  | .localName n i => .res (OpId.allocLocal n i).alloc 0
  | .param n i => .arg (.entry (.src n) 0) i

theorem Declaration.cell_injective : Function.Injective Declaration.cell := by
  intro d d' heq
  cases d <;> cases d' <;> simp_all [cell, OpId.alloc, OpId.allocLocal]

/-- The cell of `x` if it refers to `d`, or to no declaration. -/
def Globals.cell (globals : Globals) (x : String) : Option Declaration → Option (Value OpId)
  | some d => some d.cell
  | none => globals x

/-- Every global has been found in `globals'` as well. -/
def Globals.Le (globals globals' : Globals) : Prop :=
  ∀ x c, globals x = some c → globals' x = some c

theorem Globals.Le.cell {globals globals' : Globals} (hle : globals.Le globals') {x : String}
    {d : Option Declaration} {c : Value OpId} (hcell : globals.cell x d = some c) :
    globals'.cell x d = some c := by
  cases d with
  | none => exact hle x c hcell
  | some d => exact hcell

theorem Globals.le_update {globals : Globals} {x : String} (hx : globals x = none)
    (c : Value OpId) : globals.Le (Function.update globals x (some c)) := by
  intro y c' hy
  have hne : y ≠ x := by
    rintro rfl
    simp [hx] at hy
  rw [Function.update_of_ne hne, hy]

namespace AllocVisitor

/-! ## The invariant -/

/-- Looking up names from each open scope agrees with an environment. -/
def Agree (globals : Globals) : ScopedMap → List ScopeEnv → Prop
  | [], [] => True
  | scope :: scopes, env :: envs =>
    (∀ x, (ScopedMap.lookup (scope :: scopes) x).map Reference.cell = globals.cell x (env x)) ∧
      Agree globals scopes envs
  | _, _ => False

/-- A value that stands for the variable `x`. -/
inductive StandsFor (allocs : OpId → Option (String × OpId)) (x : String) : Reference → Prop
  | arg (block : BlockId OpId) (i : ℕ) (cell : Value OpId) : StandsFor allocs x ⟨.arg block i, cell⟩
  | alloc (op parent : OpId) (halloc : allocs op.alloc = some (x, parent)) :
    StandsFor allocs x ⟨.res op.alloc 0, .res op.alloc 0⟩
  | assign (n i : ℕ) (cell : Value OpId) : StandsFor allocs x ⟨.res (.assign n i) 0, cell⟩

theorem StandsFor.mono {allocs allocs' : OpId → Option (String × OpId)} {x : String}
    {ref : Reference} (hle : ∀ op q, allocs op = some q → allocs' op = some q)
    (h : StandsFor allocs x ref) : StandsFor allocs' x ref := by
  cases h with
  | arg block i cell => exact .arg block i cell
  | alloc op parent halloc => exact .alloc op parent (hle _ _ halloc)
  | assign n i cell => exact .assign n i cell

/-- The visitor resolved a use to the variable that the use refers to. -/
def Refers (globals : Globals) (code : OpId × String × Value OpId)
    (use : ℕ × String × Option Declaration) : Prop :=
  code.1 = .src use.1 ∧ code.2.1 = use.2.1 ∧ globals.cell use.2.1 use.2.2 = some code.2.2

structure Inv (v : AllocVisitor) (globals : Globals) (envs : List ScopeEnv)
    (log : List (ℕ × String × Option Declaration)) : Prop where
  agree : Agree globals v.scope envs
  standsFor : ∀ scope ∈ v.scope, ∀ x ref, scope x = some ref → StandsFor v.allocs x ref
  resolved : List.Forall₂ (Refers globals) v.resolved log
  replaced : ∀ val, v.replaced val = val ∨ ∃ x cell, StandsFor v.allocs x ⟨v.replaced val, cell⟩
  unvisited : ∀ op i, v.parentOp op = none → v.replaced (.res op i) = .res op i
  allocs : ∀ op q, v.allocs op = some q → ∃ op', op = op'.alloc ∧ v.parentOp op' ≠ none
  globalAlloc : ∀ x c, globals x = some c →
    ∃ n, c = .res (OpId.src n).alloc 0 ∧ v.parentOp (.src n) ≠ none
  injective : ∀ x y c, globals x = some c → globals y = some c → x = y

/-- What visiting ops of the nodes `touched` leaves unchanged. -/
structure Extends (touched : List ℕ) (v : AllocVisitor) (globals : Globals) (v' : AllocVisitor)
    (globals' : Globals) : Prop where
  globals : globals.Le globals'
  allocs : ∀ op q, v.allocs op = some q → v'.allocs op = some q
  replaced : ∀ op i, op.origin ∉ touched → v'.replaced (.res op i) = v.replaced (.res op i)
  parentOp : ∀ op, op.origin ∉ touched → v'.parentOp op = v.parentOp op

variable {v v' v'' : AllocVisitor} {globals globals' globals'' : Globals} {env : ScopeEnv}
  {envs : List ScopeEnv} {log : List (ℕ × String × Option Declaration)}
  {touched touched' : List ℕ}

theorem Extends.refl : Extends touched v globals v globals :=
  ⟨fun _ _ h ↦ h, fun _ _ h ↦ h, fun _ _ _ ↦ rfl, fun _ _ ↦ rfl⟩

theorem Extends.trans (h : Extends touched v globals v' globals')
    (h' : Extends touched' v' globals' v'' globals'') :
    Extends (touched ++ touched') v globals v'' globals'' where
  globals x c hc := h'.globals x c (h.globals x c hc)
  allocs op q hq := h'.allocs op q (h.allocs op q hq)
  replaced op i hop := by
    rw [List.mem_append, not_or] at hop
    rw [h'.replaced op i hop.2, h.replaced op i hop.1]
  parentOp op hop := by
    rw [List.mem_append, not_or] at hop
    rw [h'.parentOp op hop.2, h.parentOp op hop.1]

theorem Extends.mono (h : Extends touched v globals v' globals') (hsub : touched ⊆ touched') :
    Extends touched' v globals v' globals' where
  globals := h.globals
  allocs := h.allocs
  replaced op i hop := h.replaced op i fun hmem ↦ hop (hsub hmem)
  parentOp op hop := h.parentOp op fun hmem ↦ hop (hsub hmem)

/-! ## Scopes -/

end AllocVisitor

namespace ScopedMap

variable {scopes : ScopedMap} {x y : String} {ref : Reference}

theorem lookup_cons_eq_none {scope : String → Option Reference} :
    lookup (scope :: scopes) x = none ↔ scope x = none ∧ scopes.lookup x = none := by
  simp [lookup]

theorem lookup_setLocal (hscopes : scopes ≠ []) (x : String) (ref : Reference) :
    (scopes.setLocal x ref).lookup = Function.update scopes.lookup x (some ref) := by
  funext y
  cases scopes with
  | nil => contradiction
  | cons scope scopes =>
    rw [setLocal, lookup, Function.update_apply, Function.update_apply]
    split <;> rfl

theorem lookup_setGlobal (hscopes : scopes ≠ []) (hx : scopes.lookup x = none) (ref : Reference) :
    (scopes.setGlobal x ref).lookup = Function.update scopes.lookup x (some ref) := by
  induction scopes with
  | nil => contradiction
  | cons scope scopes ih =>
    have hscope : scope x = none := (lookup_cons_eq_none.mp hx).1
    have hrest : lookup scopes x = none := (lookup_cons_eq_none.mp hx).2
    funext y
    cases scopes with
    | nil =>
      rw [setGlobal, lookup, Function.update_apply, Function.update_apply]
      split <;> rfl
    | cons scope' scopes =>
      rw [setGlobal, lookup, ih (List.cons_ne_nil _ _) hrest, Function.update_apply,
        Function.update_apply]
      · split
        · next heq => rw [heq, hscope]; rfl
        · rfl
      · simp

theorem mem_setLocal {scope : String → Option Reference} (hmem : scope ∈ scopes.setLocal x ref) :
    scope ∈ scopes ∨ ∃ scope' ∈ scopes, scope = Function.update scope' x (some ref) := by
  cases scopes with
  | nil => contradiction
  | cons scope' scopes =>
    rw [setLocal, List.mem_cons] at hmem
    rcases hmem with rfl | hmem
    · exact .inr ⟨scope', List.mem_cons_self, rfl⟩
    · exact .inl (List.mem_cons_of_mem scope' hmem)

theorem mem_setGlobal {scope : String → Option Reference}
    (hmem : scope ∈ scopes.setGlobal x ref) :
    scope ∈ scopes ∨ ∃ scope' ∈ scopes, scope = Function.update scope' x (some ref) := by
  induction scopes with
  | nil => contradiction
  | cons scope' scopes ih =>
    cases scopes with
    | nil =>
      rw [setGlobal, List.mem_singleton] at hmem
      exact .inr ⟨scope', List.mem_cons_self, hmem⟩
    | cons scope'' scopes =>
      rw [setGlobal, List.mem_cons] at hmem
      · rcases hmem with rfl | hmem
        · exact .inl List.mem_cons_self
        · rcases ih hmem with hold | ⟨s, hs, heq⟩
          · exact .inl (List.mem_cons_of_mem _ hold)
          · exact .inr ⟨s, List.mem_cons_of_mem _ hs, heq⟩
      · simp

end ScopedMap

namespace AllocVisitor

variable {v v' v'' : AllocVisitor} {globals globals' globals'' : Globals} {env : ScopeEnv}
  {envs : List ScopeEnv} {log : List (ℕ × String × Option Declaration)}
  {touched touched' : List ℕ} {scopes : ScopedMap} {x : String} {ref : Reference}
  {c : Value OpId}

theorem Agree.ne_nil (h : Agree globals scopes (env :: envs)) : scopes ≠ [] := by
  rintro rfl
  exact h

theorem Agree.lookup (h : Agree globals scopes (env :: envs)) (x : String) :
    (scopes.lookup x).map Reference.cell = globals.cell x (env x) := by
  cases scopes with
  | nil => exact h.elim
  | cons scope scopes => exact h.1 x

/-- A name that is not in scope is a global that has not been used. -/
theorem Agree.eq_none (h : Agree globals scopes (env :: envs)) (hx : scopes.lookup x = none) :
    globals x = none := by
  have hcell := h.lookup x
  rw [hx] at hcell
  cases henv : env x with
  | none => simpa [henv, Globals.cell] using hcell.symm
  | some d => simp [henv, Globals.cell] at hcell

theorem Agree.pushScope (h : Agree globals scopes (env :: envs)) :
    Agree globals scopes.pushScope (env :: env :: envs) :=
  ⟨fun x ↦ h.lookup x, h⟩

theorem Agree.popScope {env' : ScopeEnv} (h : Agree globals scopes (env' :: env :: envs)) :
    Agree globals scopes.popScope (env :: envs) := by
  cases scopes with
  | nil => exact h.elim
  | cons scope scopes => exact h.2

/-- A new declaration, or another value for the variable that the name refers to. -/
theorem Agree.setLocal {env' : ScopeEnv} (h : Agree globals scopes (env :: envs))
    (hx : globals.cell x (env' x) = some ref.cell) (henv : ∀ y, y ≠ x → env' y = env y) :
    Agree globals (scopes.setLocal x ref) (env' :: envs) := by
  cases scopes with
  | nil => exact h.elim
  | cons scope scopes =>
    refine ⟨fun y ↦ ?_, h.2⟩
    have hlookup := ScopedMap.lookup_setLocal (List.cons_ne_nil scope scopes) x ref
    rw [ScopedMap.setLocal] at hlookup
    rw [hlookup, Function.update_apply]
    split
    · next heq => rw [heq, hx]; rfl
    · next hne => rw [henv y hne]; exact h.1 y

/-- The first use of a global. -/
theorem Agree.setGlobal (h : Agree globals scopes envs) (hx : scopes.lookup x = none)
    (c : Value OpId) :
    Agree (Function.update globals x (some c)) (scopes.setGlobal x (.ofCell c)) envs := by
  induction scopes generalizing envs with
  | nil =>
    cases envs with
    | nil => trivial
    | cons env envs => exact h.elim
  | cons scope scopes ih =>
    cases envs with
    | nil => exact h.elim
    | cons env envs =>
      have hhead : ∀ y, ((ScopedMap.setGlobal x (.ofCell c) (scope :: scopes)).lookup y).map
          Reference.cell = Globals.cell (Function.update globals x (some c)) y (env y) := by
        intro y
        have hlookup := h.1 y
        rw [ScopedMap.lookup_setGlobal (List.cons_ne_nil scope scopes) hx, Function.update_apply]
        split
        · next heq =>
          rw [heq, hx] at hlookup
          rw [heq]
          cases henv : env x with
          | none => simp [Globals.cell, Reference.ofCell]
          | some d => simp [henv, Globals.cell] at hlookup
        · next hne =>
          rw [hlookup]
          cases env y with
          | none => simp only [Globals.cell, Function.update_of_ne hne]
          | some d => rfl
      cases scopes with
      | nil =>
        cases envs with
        | nil => exact ⟨hhead, trivial⟩
        | cons env' envs => exact h.2.elim
      | cons scope' scopes =>
        exact ⟨hhead, ih h.2 (ScopedMap.lookup_cons_eq_none.mp hx).2⟩

/-! ## Changes of the visitor -/

theorem Inv.pushScope (h : Inv v globals (env :: envs) log) :
    Inv { v with scope := v.scope.pushScope } globals (env :: env :: envs) log := by
  refine { h with agree := h.agree.pushScope, standsFor := ?_ }
  intro scope hscope x ref hx
  rcases List.mem_cons.mp hscope with rfl | hscope
  · contradiction
  · exact h.standsFor scope hscope x ref hx

theorem Inv.popScope {env' : ScopeEnv} (h : Inv v globals (env' :: env :: envs) log) :
    Inv { v with scope := v.scope.popScope } globals (env :: envs) log :=
  { h with
    agree := h.agree.popScope
    standsFor := fun scope hscope ↦ h.standsFor scope (List.mem_of_mem_tail hscope) }

theorem Inv.setLocal {env' : ScopeEnv} (h : Inv v globals (env :: envs) log)
    (hstands : StandsFor v.allocs x ref) (hx : globals.cell x (env' x) = some ref.cell)
    (henv : ∀ y, y ≠ x → env' y = env y) :
    Inv (v.setLocal x ref) globals (env' :: envs) log := by
  refine { h with agree := h.agree.setLocal hx henv, standsFor := ?_ }
  intro scope hscope y ref' hy
  rcases ScopedMap.mem_setLocal hscope with hold | ⟨scope', hscope', rfl⟩
  · exact h.standsFor scope hold y ref' hy
  · rw [Function.update_apply] at hy
    split at hy
    · next heq =>
      rw [heq, ← Option.some.inj hy]
      exact hstands
    · exact h.standsFor scope' hscope' y ref' hy

theorem Inv.visited (h : Inv v globals envs log) (op parent : OpId) :
    Inv { v with parentOp := Function.update v.parentOp op (some parent) } globals envs log := by
  have hmono : ∀ op', v.parentOp op' ≠ none →
      Function.update v.parentOp op (some parent) op' ≠ none := by
    intro op' hop'
    rw [Function.update_apply]
    split
    · simp
    · exact hop'
  refine { h with unvisited := ?_, allocs := ?_, globalAlloc := ?_ }
  · intro op' i hop'
    apply h.unvisited op' i
    by_contra hne
    exact hmono op' hne hop'
  · intro op' q hq
    obtain ⟨op'', heq, hvisited⟩ := h.allocs op' q hq
    exact ⟨op'', heq, hmono op'' hvisited⟩
  · intro x c hc
    obtain ⟨n, heq, hvisited⟩ := h.globalAlloc x c hc
    exact ⟨n, heq, hmono (.src n) hvisited⟩

/-- The alloc of an op is created when the op is visited. -/
theorem Inv.allocs_unvisited (h : Inv v globals envs log) {op : OpId}
    (hop : v.parentOp op = none) : v.allocs op.alloc = none := by
  by_contra hne
  obtain ⟨q, hq⟩ := Option.ne_none_iff_exists'.mp hne
  obtain ⟨op', heq, hvisited⟩ := h.allocs op.alloc q hq
  simp only [OpId.alloc, OpId.new.injEq, and_true] at heq
  rw [← heq] at hvisited
  exact hvisited hop

theorem createAlloc_le {op : OpId} (hnew : v.allocs op.alloc = none) (x : String)
    (parent : OpId) : ∀ op' q, v.allocs op' = some q →
      (v.createAlloc op x parent).allocs op' = some q := by
  intro op' q hq
  have hne : op' ≠ op.alloc := by
    rintro rfl
    simp [hnew] at hq
  rw [allocs_createAlloc, Function.update_of_ne hne, hq]

theorem Inv.createAlloc {op : OpId} (h : Inv v globals envs log) (hop : v.parentOp op ≠ none)
    (hnew : v.allocs op.alloc = none) (x : String) (parent : OpId) :
    Inv (v.createAlloc op x parent) globals envs log := by
  have hle := createAlloc_le hnew x parent
  refine { h with standsFor := ?_, replaced := ?_, allocs := ?_ }
  · intro scope hscope y ref hy
    exact (h.standsFor scope hscope y ref hy).mono hle
  · intro val
    rcases h.replaced val with hval | ⟨y, cell, hval⟩
    · exact .inl hval
    · exact .inr ⟨y, cell, hval.mono hle⟩
  · intro op' q hq
    rw [allocs_createAlloc, Function.update_apply] at hq
    split at hq
    · next heq => exact ⟨op, heq, hop⟩
    · exact h.allocs op' q hq

theorem Inv.replace {op : OpId} (h : Inv v globals envs log) (hop : v.parentOp op ≠ none)
    (hstands : StandsFor v.allocs x ref) :
    Inv (v.replace op ref.value) globals envs log := by
  refine { h with replaced := ?_, unvisited := ?_ }
  · intro val
    rw [replaced_replace, Function.update_apply]
    split
    · exact .inr ⟨x, ref.cell, hstands⟩
    · exact h.replaced val
  · intro op' i hop'
    have hne : Value.res op' i ≠ .res op 0 := by
      rintro heq
      rw [Value.res.injEq] at heq
      rw [heq.1] at hop'
      exact hop hop'
    rw [replaced_replace, Function.update_of_ne hne]
    exact h.unvisited op' i hop'

theorem Forall₂.refers_mono (hle : globals.Le globals') {code : List (OpId × String × Value OpId)}
    (h : List.Forall₂ (Refers globals) code log) : List.Forall₂ (Refers globals') code log :=
  h.imp fun _ _ ⟨hop, hname, hcell⟩ ↦ ⟨hop, hname, hle.cell hcell⟩

theorem Inv.setGlobal {n : ℕ} {parent : OpId} (h : Inv v globals (env :: envs) log)
    (hlookup : v.scope.lookup x = none) (hop : v.parentOp (.src n) ≠ none)
    (halloc : v.allocs (OpId.src n).alloc = some (x, parent))
    (hnew : ∀ y, globals y ≠ some (.res (OpId.src n).alloc 0)) :
    Inv (v.setGlobal x (.ofCell (.res (OpId.src n).alloc 0)))
      (Function.update globals x (some (.res (OpId.src n).alloc 0))) (env :: envs) log := by
  have hglobal : globals x = none := h.agree.eq_none hlookup
  refine { h with
    agree := h.agree.setGlobal hlookup _
    standsFor := ?_
    resolved := Forall₂.refers_mono (Globals.le_update hglobal _) h.resolved
    globalAlloc := ?_
    injective := ?_ }
  · intro scope hscope y ref' hy
    rcases ScopedMap.mem_setGlobal hscope with hold | ⟨scope', hscope', rfl⟩
    · exact h.standsFor scope hold y ref' hy
    · rw [Function.update_apply] at hy
      split at hy
      · next heq =>
        rw [heq, ← Option.some.inj hy]
        exact .alloc (.src n) parent halloc
      · exact h.standsFor scope' hscope' y ref' hy
  · intro y c hc
    rw [Function.update_apply] at hc
    split at hc
    · exact ⟨n, (Option.some.inj hc).symm, hop⟩
    · exact h.globalAlloc y c hc
  · intro y z c hy hz
    rw [Function.update_apply] at hy hz
    split at hy <;> split at hz
    · next hyx hzx => rw [hyx, hzx]
    · rw [← Option.some.inj hy] at hz
      exact (hnew z hz).elim
    · rw [← Option.some.inj hz] at hy
      exact (hnew y hy).elim
    · exact h.injective y z c hy hz

end AllocVisitor

end DeclarativeMlir.Lua
