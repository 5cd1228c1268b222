import Mathlib.Data.List.Basic
import Mathlib.Data.Set.Basic
import Mathlib.Logic.Function.Basic

/-!
# Lexical scoping

A program as its uses and declarations of names, nested in blocks. A declaration comes with a part
of the program, such as an initial value or a function body, in which its names are visible or
not. Flipping this choice everywhere keeps what every use refers to exactly if no such part uses
the names declared with it.
-/

namespace DeclarativeMlir.LexicalScope

/-- Uses `O` of names `X`, and declarations `D` of names. -/
inductive Tree (O X D : Type) where
  | skip
  | use (occ : O) (x : X)
  | seq (s t : Tree O X D)
  /-- the names declared in `t` are visible in `t` only -/
  | block (t : Tree O X D)
  /-- `decls` are visible from here on, in `t` only if `recursive` -/
  | bind (recursive : Bool) (decls : List (X × D)) (t : Tree O X D)

variable {O X D : Type}

/-- The declaration that a name refers to; none if it is free. -/
abbrev Env (X D : Type) := X → Option D

variable [DecidableEq X]

/-- A later declaration of a name hides an earlier one. -/
def Env.extend (env : Env X D) (decls : List (X × D)) : Env X D :=
  decls.foldl (fun env (x, d) ↦ Function.update env x (some d)) env

@[simp]
theorem Env.extend_nil (env : Env X D) : env.extend [] = env := rfl

@[simp]
theorem Env.extend_cons (env : Env X D) (x : X) (d : D) (decls : List (X × D)) :
    env.extend ((x, d) :: decls) = Env.extend (Function.update env x (some d)) decls := rfl

theorem Env.extend_of_notMem (env : Env X D) {decls : List (X × D)} {x : X}
    (hx : x ∉ decls.map Prod.fst) : env.extend decls x = env x := by
  induction decls generalizing env with
  | nil => rfl
  | cons decl decls ih =>
    obtain ⟨y, d⟩ := decl
    simp only [List.map_cons, List.mem_cons, not_or] at hx
    rw [extend_cons, ih _ hx.2, Function.update_of_ne hx.1]

theorem Env.exists_extend_of_mem (env : Env X D) {decls : List (X × D)} {x : X}
    (hx : x ∈ decls.map Prod.fst) : ∃ d, (x, d) ∈ decls ∧ env.extend decls x = some d := by
  induction decls generalizing env with
  | nil => contradiction
  | cons decl decls ih =>
    obtain ⟨y, d⟩ := decl
    rw [extend_cons]
    by_cases hlater : x ∈ decls.map Prod.fst
    · obtain ⟨d', hmem, heq⟩ := ih (Function.update env y (some d)) hlater
      exact ⟨d', List.mem_cons_of_mem _ hmem, heq⟩
    · simp only [List.map_cons, List.mem_cons, hlater, or_false] at hx
      subst hx
      refine ⟨d, List.mem_cons_self, ?_⟩
      rw [extend_of_notMem _ hlater, Function.update_self]

theorem Env.extend_congr {env env' : Env X D} (decls : List (X × D)) {x : X}
    (hx : env x = env' x) : env.extend decls x = env'.extend decls x := by
  by_cases hmem : x ∈ decls.map Prod.fst
  · induction decls generalizing env env' with
    | nil => contradiction
    | cons decl decls ih =>
      obtain ⟨y, d⟩ := decl
      rw [extend_cons, extend_cons]
      have hupdate : Function.update env y (some d) x = Function.update env' y (some d) x := by
        simp only [Function.update_apply, hx]
      by_cases hlater : x ∈ decls.map Prod.fst
      · exact ih hupdate hlater
      · rw [extend_of_notMem _ hlater, extend_of_notMem _ hlater, hupdate]
  · rw [extend_of_notMem _ hmem, extend_of_notMem _ hmem, hx]

theorem Env.extend_of_mem {env env' : Env X D} {decls : List (X × D)} {x : X}
    (hx : x ∈ decls.map Prod.fst) : env.extend decls x = env'.extend decls x := by
  induction decls generalizing env env' with
  | nil => contradiction
  | cons decl decls ih =>
    obtain ⟨y, d⟩ := decl
    rw [extend_cons, extend_cons]
    by_cases hlater : x ∈ decls.map Prod.fst
    · exact ih hlater
    · simp only [List.map_cons, List.mem_cons, hlater, or_false] at hx
      subst hx
      apply extend_congr
      simp only [Function.update_self]

/-- Declaring the same names again changes nothing. -/
theorem Env.extend_extend (env : Env X D) (decls : List (X × D)) :
    (env.extend decls).extend decls = env.extend decls := by
  funext x
  by_cases hx : x ∈ decls.map Prod.fst
  · exact extend_of_mem hx
  · exact extend_of_notMem _ hx

namespace Tree

/-- The names in scope behind `t`. -/
def after (env : Env X D) : Tree O X D → Env X D
  | skip | use _ _ | block _ => env
  | seq s t => t.after (s.after env)
  | bind _ decls _ => env.extend decls

/-- What the uses in `t` refer to. -/
def resolve (env : Env X D) : Tree O X D → List (O × X × Option D)
  | skip => []
  | use occ x => [(occ, x, env x)]
  | seq s t => s.resolve env ++ t.resolve (s.after env)
  | block t => t.resolve env
  | bind recursive decls t => t.resolve (if recursive then env.extend decls else env)

/-- The names that `t` declares for what follows it. -/
def declared : Tree O X D → List X
  | skip | use _ _ | block _ => []
  | seq s t => s.declared ++ t.declared
  | bind _ decls _ => decls.map Prod.fst

/-- The names that are used and refer to something outside. -/
def free : Tree O X D → Set X
  | skip => ∅
  | use _ x => {x}
  | seq s t => s.free ∪ {x ∈ t.free | x ∉ s.declared}
  | block t => t.free
  | bind recursive decls t => {x ∈ t.free | recursive = true → x ∉ decls.map Prod.fst}

/-- The declarations in `t`. -/
def decls : Tree O X D → List D
  | skip | use _ _ => []
  | seq s t => s.decls ++ t.decls
  | block t => t.decls
  | bind _ decls t => decls.map Prod.snd ++ t.decls

/-- The other choice for every declaration. -/
def flip : Tree O X D → Tree O X D
  | skip => skip
  | use occ x => use occ x
  | seq s t => seq s.flip t.flip
  | block t => block t.flip
  | bind recursive decls t => bind (!recursive) decls t.flip

/-- No part uses the names that are declared with it. -/
def NoSelfReference : Tree O X D → Prop
  | skip | use _ _ => True
  | seq s t => s.NoSelfReference ∧ t.NoSelfReference
  | block t => t.NoSelfReference
  | bind _ decls t => (∀ x ∈ t.free, x ∉ decls.map Prod.fst) ∧ t.NoSelfReference

-- The equations are made once, here, and not by all the proofs below at the same time.
attribute [grind =] after resolve declared decls flip

variable {env env' : Env X D} {t : Tree O X D}

@[simp]
theorem after_flip (env : Env X D) (t : Tree O X D) : t.flip.after env = t.after env := by
  induction t generalizing env with
  | seq s t ihs iht => simp only [flip, after, ihs, iht]
  | _ => rfl

theorem after_of_notMem {x : X} (hx : x ∉ t.declared) : t.after env x = env x := by
  induction t generalizing env with
  | skip => rfl
  | use occ y => rfl
  | block t ih => rfl
  | seq s t ihs iht =>
    rw [declared, List.mem_append, not_or] at hx
    rw [after, iht hx.2, ihs hx.1]
  | bind recursive decls t ih => exact env.extend_of_notMem hx

theorem after_congr {x : X} (hx : env x = env' x) : t.after env x = t.after env' x := by
  induction t generalizing env env' with
  | skip => exact hx
  | use occ y => exact hx
  | block t ih => exact hx
  | seq s t ihs iht => exact iht (ihs hx)
  | bind recursive decls t ih => exact Env.extend_congr decls hx

theorem after_of_mem {x : X} (hx : x ∈ t.declared) : t.after env x = t.after env' x := by
  induction t generalizing env env' with
  | skip => contradiction
  | use occ y => contradiction
  | block t ih => contradiction
  | seq s t ihs iht =>
    rw [declared, List.mem_append] at hx
    rw [after, after]
    by_cases ht : x ∈ t.declared
    · exact iht ht
    · exact after_congr (ihs (hx.resolve_right ht))
  | bind recursive decls t ih =>
    exact Env.extend_of_mem hx

/-- Uses depend on the free names only. -/
theorem resolve_congr (henv : ∀ x ∈ t.free, env x = env' x) : t.resolve env = t.resolve env' := by
  induction t generalizing env env' with
  | skip => rfl
  | use occ x => rw [resolve, resolve, henv x rfl]
  | seq s t ihs iht =>
    rw [resolve, resolve, ihs fun x hx ↦ henv x (.inl hx)]
    congr 1
    apply iht
    intro x hx
    by_cases hdeclared : x ∈ s.declared
    · exact after_of_mem hdeclared
    · exact after_congr (henv x (.inr ⟨hx, hdeclared⟩))
  | block t ih => exact ih henv
  | bind recursive decls t ih =>
    rw [resolve, resolve]
    apply ih
    intro x hx
    cases recursive with
    | false => exact henv x ⟨hx, by simp⟩
    | true =>
      by_cases hdecl : x ∈ decls.map Prod.fst
      · exact Env.extend_of_mem hdecl
      · exact Env.extend_congr decls (henv x ⟨hx, fun _ ↦ hdecl⟩)

/-- If no part uses the names declared with it, the choice does not matter. -/
theorem resolve_flip (hself : t.NoSelfReference) (env : Env X D) :
    t.flip.resolve env = t.resolve env := by
  induction t generalizing env with
  | skip => rfl
  | use occ x => rfl
  | seq s t ihs iht => rw [flip, resolve, resolve, ihs hself.1, after_flip, iht hself.2]
  | block t ih => exact ih hself env
  | bind recursive decls t ih =>
    rw [flip, resolve, resolve, ih hself.2]
    apply resolve_congr
    intro x hx
    have hextend : env.extend decls x = env x := env.extend_of_notMem (hself.1 x hx)
    cases recursive <;> simp [hextend]

/-- A name in scope behind `t` was in scope before, or is declared in `t`. -/
theorem after_eq_or_mem_decls (t : Tree O X D) (env : Env X D) (x : X) :
    t.after env x = env x ∨ ∃ d ∈ t.decls, t.after env x = some d := by
  induction t generalizing env with
  | skip => exact .inl rfl
  | use occ y => exact .inl rfl
  | block t ih => exact .inl rfl
  | seq s t ihs iht =>
    rw [after, decls]
    rcases iht (s.after env) with heq | ⟨d, hd, heq⟩
    · rw [heq]
      rcases ihs env with heq | ⟨d, hd, heq⟩
      · exact .inl heq
      · exact .inr ⟨d, List.mem_append_left _ hd, heq⟩
    · exact .inr ⟨d, List.mem_append_right _ hd, heq⟩
  | bind recursive ds t ih =>
    by_cases hx : x ∈ ds.map Prod.fst
    · obtain ⟨d, hd, heq⟩ := env.exists_extend_of_mem hx
      exact .inr ⟨d, List.mem_append_left _ (List.mem_map_of_mem hd), heq⟩
    · exact .inl (env.extend_of_notMem hx)

/-- With either choice, a use refers to what is in scope at the start or to a declaration of
`t`. -/
theorem eq_or_mem_decls_of_mem_resolve_flip {occ : O} {x : X} {d : Option D}
    (hmem : (occ, x, d) ∈ t.flip.resolve env) : d = env x ∨ ∃ d' ∈ t.decls, d = some d' := by
  induction t generalizing env with
  | skip => contradiction
  | use occ' y =>
    rw [flip, resolve, List.mem_singleton] at hmem
    obtain ⟨rfl, rfl, rfl⟩ := hmem
    exact .inl rfl
  | block t ih => exact ih hmem
  | seq s t ihs iht =>
    rw [flip, resolve, List.mem_append, after_flip] at hmem
    rw [decls]
    rcases hmem with hmem | hmem
    · rcases ihs hmem with heq | ⟨d', hd, heq⟩
      · exact .inl heq
      · exact .inr ⟨d', List.mem_append_left _ hd, heq⟩
    · rcases iht hmem with heq | ⟨d', hd, heq⟩
      · rw [heq]
        rcases s.after_eq_or_mem_decls env x with heq | ⟨d', hd, heq⟩
        · exact .inl heq
        · exact .inr ⟨d', List.mem_append_left _ hd, heq⟩
      · exact .inr ⟨d', List.mem_append_right _ hd, heq⟩
  | bind recursive ds t ih =>
    rw [flip, resolve] at hmem
    rw [decls]
    rcases ih hmem with heq | ⟨d', hd, heq⟩
    · rw [heq]
      rcases (bind true ds (skip : Tree O X D)).after_eq_or_mem_decls env x with hold | hnew
      · left
        cases recursive
        · exact hold
        · rfl
      · obtain ⟨d', hd, hnew⟩ := hnew
        rw [decls, decls, List.append_nil] at hd
        cases recursive
        · exact .inr ⟨d', List.mem_append_left _ hd, hnew⟩
        · exact .inl rfl
    · exact .inr ⟨d', List.mem_append_right _ hd, heq⟩

theorem exists_mem_resolve_of_mem_free {x : X} (hx : x ∈ t.free) (env : Env X D) :
    ∃ occ, (occ, x, env x) ∈ t.resolve env := by
  induction t generalizing env with
  | skip => contradiction
  | use occ y =>
    obtain rfl : x = y := hx
    exact ⟨occ, List.mem_singleton_self _⟩
  | block t ih => exact ih hx env
  | seq s t ihs iht =>
    rw [resolve]
    rcases hx with hx | ⟨hx, hdeclared⟩
    · obtain ⟨occ, hmem⟩ := ihs hx env
      exact ⟨occ, List.mem_append_left _ hmem⟩
    · obtain ⟨occ, hmem⟩ := iht hx (s.after env)
      rw [after_of_notMem hdeclared] at hmem
      exact ⟨occ, List.mem_append_right _ hmem⟩
  | bind recursive ds t ih =>
    obtain ⟨hx, hdecl⟩ := hx
    obtain ⟨occ, hmem⟩ := ih hx (if recursive then env.extend ds else env)
    refine ⟨occ, ?_⟩
    rw [resolve]
    cases recursive with
    | false => exact hmem
    | true =>
      have hextend : env.extend ds x = env x := env.extend_of_notMem (hdecl rfl)
      simpa only [if_true, hextend] using hmem

theorem length_resolve_flip (t : Tree O X D) (env env' : Env X D) :
    (t.flip.resolve env).length = (t.resolve env').length := by
  induction t generalizing env env' with
  | skip => rfl
  | use occ x => rfl
  | block t ih => exact ih env env'
  | seq s t ihs iht =>
    rw [flip, resolve, resolve, List.length_append, List.length_append, ihs env env',
      iht _ (s.after env')]
  | bind recursive ds t ih =>
    rw [flip, resolve, resolve]
    exact ih _ _

/-- The choice matters wherever a part uses a name declared with it. -/
theorem noSelfReference_of_resolve_flip (hnodup : t.decls.Nodup)
    (hfresh : ∀ x, ∀ d ∈ t.decls, env x ≠ some d) (heq : t.flip.resolve env = t.resolve env) :
    t.NoSelfReference := by
  induction t generalizing env with
  | skip => trivial
  | use occ x => trivial
  | block t ih => exact ih hnodup hfresh heq
  | seq s t ihs iht =>
    rw [decls] at hnodup hfresh
    rw [List.nodup_append] at hnodup
    rw [flip, resolve, resolve, after_flip] at heq
    obtain ⟨hs, ht⟩ := List.append_inj heq (s.length_resolve_flip env env)
    refine ⟨ihs hnodup.1 (fun x d hd ↦ hfresh x d (List.mem_append_left _ hd)) hs,
      iht hnodup.2.1 (fun x d hd ↦ ?_) ht⟩
    rcases s.after_eq_or_mem_decls env x with hold | ⟨d', hd', hnew⟩
    · rw [hold]
      exact hfresh x d (List.mem_append_right _ hd)
    · rw [hnew]
      intro hsome
      exact hnodup.2.2 d' hd' d hd (Option.some.inj hsome)
  | bind recursive ds t ih =>
    rw [decls] at hnodup hfresh
    rw [List.nodup_append] at hnodup
    rw [flip, resolve, resolve] at heq
    have hinner : ∀ x, ∀ d ∈ t.decls, env.extend ds x ≠ some d := by
      intro x d hd hsome
      by_cases hx : x ∈ ds.map Prod.fst
      · obtain ⟨d', hd', hextend⟩ := env.exists_extend_of_mem hx
        rw [hextend] at hsome
        exact hnodup.2.2 d' (List.mem_map_of_mem hd') d hd (Option.some.inj hsome)
      · rw [env.extend_of_notMem hx] at hsome
        exact hfresh x d (List.mem_append_right _ hd) hsome
    have hself : ∀ x ∈ t.free, x ∉ ds.map Prod.fst := by
      intro x hx hmem
      obtain ⟨d, hd, hextend⟩ := env.exists_extend_of_mem hmem
      have hdDecls : d ∈ ds.map Prod.snd := List.mem_map_of_mem hd
      have houter : env x ≠ some d := hfresh x d (List.mem_append_left _ hdDecls)
      obtain ⟨occ, hocc⟩ := exists_mem_resolve_of_mem_free hx
        (if recursive then env.extend ds else env)
      rw [← heq] at hocc
      rcases eq_or_mem_decls_of_mem_resolve_flip hocc with hsame | ⟨d', hd', hsome⟩
      · cases recursive
        · exact houter (hsame.trans hextend)
        · exact houter (hsame.symm.trans hextend)
      · cases recursive
        · exact hfresh x d' (List.mem_append_right _ hd') hsome
        · exact hinner x d' hd' hsome
    refine ⟨hself, ?_⟩
    have hcongr : t.resolve (if (!recursive) = true then env.extend ds else env) =
        t.resolve (if recursive = true then env.extend ds else env) := by
      apply resolve_congr
      intro x hx
      have hextend : env.extend ds x = env x := env.extend_of_notMem (hself x hx)
      cases recursive <;> simp [hextend]
    apply ih hnodup.2.1 _ (heq.trans hcongr.symm)
    intro x d hd
    cases recursive
    · exact hinner x d hd
    · exact hfresh x d (List.mem_append_right _ hd)

/-- The choice does not matter exactly if no part uses the names declared with it. -/
theorem resolve_flip_iff (hnodup : t.decls.Nodup) :
    t.flip.resolve (fun _ ↦ none) = t.resolve (fun _ ↦ none) ↔ t.NoSelfReference :=
  ⟨noSelfReference_of_resolve_flip hnodup fun _ _ _ ↦ by simp, fun hself ↦ resolve_flip hself _⟩

end Tree

end DeclarativeMlir.LexicalScope
