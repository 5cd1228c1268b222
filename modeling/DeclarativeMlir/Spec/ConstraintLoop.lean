import DeclarativeMlir.Spec.VerifierSafety
import Mathlib.Data.List.Range

/-!
# The loop over regions and successors

`verifyConstraintsLastVariadic` goes along the constraints and the regions (or successors) with two
iterators. It is modelled with the offsets of the iterators and a list of the checks it makes. The
checks are one for each region, in order: of the constraint at the same position, or of the last
one where there are more regions than constraints.
-/

namespace DeclarativeMlir.Spec

/-! ## The loop -/

/-- What a loop has come to, and the pairs of offsets of a constraint and a variable it checked. -/
abbrev Checked (α : Type) : Type := α × List (ℕ × ℕ)

section Loop

variable {C T : Type} (isVariadic : C → Bool) (verify : C → T → Bool) (toString : C → String)
  (constraints : List C) (vars : List T)

/-- The inner loop, from `it` on. It ends with the next number of a region. -/
def innerLoop (attrIt : ℕ) (attr : C) (varIt it idx : ℕ) : Checked (Except Outcome ℕ) :=
  if it ≠ vars.length ∧ (it = varIt ∨ isVariadic attr = true) then
    match hvar : vars[it]? with
    | none => (.error .undefined, [])
    | some var =>
      if verify attr var then
        let rest := innerLoop attrIt attr varIt (it + 1) (idx + 1)
        (rest.1, (attrIt, it) :: rest.2)
      else (.error (.failure (.regionExpected idx (toString attr))), [(attrIt, it)])
  else (.ok idx, [])
termination_by vars.length - it
decreasing_by
  have hlt : it < vars.length := (List.getElem?_eq_some_iff.mp hvar).1
  omega

/-- The outer loop, with its assertions. -/
def outerLoop (attrIt varIt idx : ℕ) : Checked Outcome :=
  match hattr : constraints[attrIt]? with
  | none => (.success, [])
  | some attr =>
    if isVariadic attr = true ∧ attrIt ≠ constraints.length - 1 then (.undefined, [])
    else if varIt = vars.length ∧ isVariadic attr = false then (.undefined, [])
    else
      match innerLoop isVariadic verify toString vars attrIt attr varIt varIt idx with
      | (.error outcome, checks) => (outcome, checks)
      | (.ok idx, checks) =>
        let rest := outerLoop (attrIt + 1) (varIt + 1) idx
        (rest.1, checks ++ rest.2)
termination_by constraints.length - attrIt
decreasing_by
  have hlt : attrIt < constraints.length := (List.getElem?_eq_some_iff.mp hattr).1
  omega

end Loop

/-! ## The checks -/

section Checks

variable {C T : Type} (isVariadic : C → Bool) (verify : C → T → Bool) (toString : C → String)
  (constraints : List C) (vars : List T)

/-- A list of checks, up to the first that fails. -/
def checkAll : List (ℕ × ℕ) → Checked Outcome
  | [] => (.success, [])
  | (attrIt, it) :: checks =>
    match constraints[attrIt]?, vars[it]? with
    | some attr, some var =>
      if verify attr var then
        let rest := checkAll checks
        (rest.1, (attrIt, it) :: rest.2)
      else (.failure (.regionExpected it (toString attr)), [(attrIt, it)])
    | _, _ => (.undefined, [])

/-- The checks of the variables from some one on: each against the constraint at its position, or
against the last one. -/
def checksFrom (idx : ℕ) : List (ℕ × ℕ) :=
  (List.range' idx (vars.length - idx)).map fun it ↦ (min it (constraints.length - 1), it)

/-- As many variables as constraints if no constraint is variadic, and else at least as many as
there are other constraints. -/
def LengthsFit : Prop :=
  if constraints.countP isVariadic = 0 then vars.length = constraints.length
  else constraints.length - 1 ≤ vars.length

theorem checksFrom_succ {idx : ℕ} (hlt : idx < vars.length) :
    checksFrom constraints vars idx =
      (min idx (constraints.length - 1), idx) :: checksFrom constraints vars (idx + 1) := by
  have hlength : vars.length - idx = vars.length - (idx + 1) + 1 := by omega
  rw [checksFrom, checksFrom, hlength, List.range'_succ, List.map_cons]

theorem checksFrom_length {idx : ℕ} (hle : vars.length ≤ idx) :
    checksFrom constraints vars idx = [] := by
  rw [checksFrom, Nat.sub_eq_zero_of_le hle]
  rfl

/-- The checks of a variadic constraint, which the inner loop makes all. -/
theorem innerLoop_variadic {attrIt : ℕ} {attr : C} (hattr : constraints[attrIt]? = some attr)
    (hlast : attrIt = constraints.length - 1) (hvariadic : isVariadic attr = true) (varIt it : ℕ)
    (hle : attrIt ≤ it) (hlength : it ≤ vars.length) :
    innerLoop isVariadic verify toString vars attrIt attr varIt it it =
      match checkAll verify toString constraints vars (checksFrom constraints vars it) with
      | (.success, checks) => (.ok vars.length, checks)
      | (outcome, checks) => (.error outcome, checks) := by
  obtain ⟨rest, hrest⟩ : ∃ rest, vars.length - it = rest := ⟨_, rfl⟩
  induction rest generalizing it with
  | zero =>
    have heq : it = vars.length := by omega
    rw [innerLoop, checksFrom_length constraints vars (by omega)]
    simp [heq, checkAll]
  | succ rest ih =>
    have hlt : it < vars.length := by omega
    have hmin : min it (constraints.length - 1) = attrIt := by omega
    have hvar : vars[it]? = some vars[it] := List.getElem?_eq_getElem hlt
    rw [innerLoop, checksFrom_succ constraints vars hlt, hmin, checkAll,
      if_pos ⟨hlt.ne, .inr hvariadic⟩]
    split
    next hnone => simp [hvar] at hnone
    next var hsome =>
      simp only [hattr, hsome]
      cases hverify : verify attr var with
      | false => simp
      | true =>
        rw [if_pos rfl, ih (it + 1) (by omega) (by omega) (by omega), if_pos rfl]
        rcases checkAll verify toString constraints vars (checksFrom constraints vars (it + 1)) with
          ⟨_ | _ | _, checks⟩ <;> rfl

/-- A constraint that is not variadic checks one variable. -/
theorem innerLoop_fixed {idx : ℕ} {attr : C} (hfixed : isVariadic attr = false)
    (hlt : idx < vars.length) :
    innerLoop isVariadic verify toString vars idx attr idx idx idx =
      if verify attr vars[idx] then (.ok (idx + 1), [(idx, idx)])
      else (.error (.failure (.regionExpected idx (toString attr))), [(idx, idx)]) := by
  have hnext : innerLoop isVariadic verify toString vars idx attr idx (idx + 1) (idx + 1) =
      (.ok (idx + 1), []) := by
    rw [innerLoop, if_neg (by simp [hfixed])]
  rw [innerLoop, if_pos ⟨hlt.ne, .inl rfl⟩]
  split
  next hnone => simp at hnone; omega
  next var hsome =>
    have hvar : vars[idx] = var := (List.getElem?_eq_some_iff.mp hsome).2
    rw [hvar, hnext]

/-- A variadic constraint is the last one, the others have a variable, and the last one has all
variables if it is not variadic. -/
structure Fits : Prop where
  variadic : ∀ idx attr, constraints[idx]? = some attr → isVariadic attr = true →
    idx = constraints.length - 1 ∧ idx ≤ vars.length
  fixed : ∀ idx attr, constraints[idx]? = some attr → isVariadic attr = false →
    idx < vars.length ∧ (idx = constraints.length - 1 → vars.length = constraints.length)
  nil : constraints = [] → vars = []

variable {isVariadic constraints vars}

theorem Fits.of_verifyConstraintList {name : String}
    (hlist : verifyConstraintList isVariadic name constraints = .ok ())
    (hlengths : LengthsFit isVariadic constraints vars) : Fits isVariadic constraints vars := by
  rcases verifyConstraintList_ok hlist with hfixed | ⟨fixed, last, rfl, hlast, hfixed⟩
  · have hnone : constraints.countP isVariadic = 0 := by simpa [List.countP_eq_zero] using hfixed
    rw [LengthsFit, if_pos hnone] at hlengths
    refine ⟨fun idx attr hattr hvariadic ↦ ?_, fun idx attr hattr _ ↦ ?_, fun hnil ↦ ?_⟩
    · simp [hfixed attr (List.mem_of_getElem? hattr)] at hvariadic
    · exact ⟨hlengths ▸ (List.getElem?_eq_some_iff.mp hattr).1, fun _ ↦ hlengths⟩
    · simpa [hnil] using hlengths
  · have hsome : (fixed ++ [last]).countP isVariadic ≠ 0 := by simp [List.countP_append, hlast]
    rw [LengthsFit, if_neg hsome] at hlengths
    simp only [List.length_append, List.length_singleton, Nat.add_sub_cancel] at hlengths
    have hposition (idx : ℕ) (attr : C) (hattr : (fixed ++ [last])[idx]? = some attr) :
        idx < fixed.length ∧ isVariadic attr = false ∨
          idx = fixed.length ∧ isVariadic attr = true := by
      rcases Nat.lt_or_ge idx fixed.length with hlt | hge
      · rw [List.getElem?_append_left hlt] at hattr
        exact .inl ⟨hlt, hfixed attr (List.mem_of_getElem? hattr)⟩
      · have hlt := (List.getElem?_eq_some_iff.mp hattr).1
        simp only [List.length_append, List.length_singleton] at hlt
        obtain rfl : idx = fixed.length := by omega
        rw [List.getElem?_concat_length, Option.some.injEq] at hattr
        exact .inr ⟨rfl, hattr ▸ hlast⟩
    refine ⟨fun idx attr hattr hvariadic ↦ ?_, fun idx attr hattr hnot ↦ ?_, fun hnil ↦ ?_⟩
    · rcases hposition idx attr hattr with ⟨_, hnot⟩ | ⟨heq, _⟩
      · simp [hvariadic] at hnot
      · simpa [heq] using hlengths
    · rcases hposition idx attr hattr with ⟨hlt, _⟩ | ⟨_, hvariadic⟩
      · refine ⟨by omega, fun heq ↦ ?_⟩
        simp only [List.length_append, List.length_singleton, Nat.add_sub_cancel] at heq
        omega
      · simp [hvariadic] at hnot
    · simp at hnil

/-- The two loops make the checks of all variables, up to the first that fails. -/
theorem outerLoop_eq (hfits : Fits isVariadic constraints vars) {idx : ℕ}
    (hidx : idx < constraints.length ∨ vars.length ≤ idx) :
    outerLoop isVariadic verify toString constraints vars idx idx idx =
      checkAll verify toString constraints vars (checksFrom constraints vars idx) := by
  obtain ⟨rest, hrest⟩ : ∃ rest, constraints.length - idx = rest := ⟨_, rfl⟩
  induction rest generalizing idx with
  | zero =>
    have hnone : constraints[idx]? = none := List.getElem?_eq_none (by omega)
    rw [checksFrom_length constraints vars (by omega), outerLoop]
    split
    next => rfl
    next attr hsome => simp [hnone] at hsome
  | succ rest ih =>
    have hlt : idx < constraints.length := by omega
    have hattr : constraints[idx]? = some constraints[idx] := List.getElem?_eq_getElem hlt
    rw [outerLoop]
    split
    next hnone => simp [hattr] at hnone
    next attr hsome =>
      cases hvariadic : isVariadic attr with
      | true =>
        obtain ⟨hlast, hle⟩ := hfits.variadic idx attr hsome hvariadic
        have hend (idx' : ℕ) : outerLoop isVariadic verify toString constraints vars (idx + 1)
            (idx + 1) idx' = (.success, []) := by
          have hnone : constraints[idx + 1]? = none := List.getElem?_eq_none (by omega)
          rw [outerLoop]
          split
          next => rfl
          next _ hsome => simp [hnone] at hsome
        rw [if_neg (fun h ↦ h.2 hlast), if_neg (by simp),
          innerLoop_variadic isVariadic verify toString constraints vars hsome hlast hvariadic idx
            idx le_rfl hle]
        rcases checkAll verify toString constraints vars (checksFrom constraints vars idx) with
          ⟨_ | _ | _, checks⟩ <;> simp [hend]
      | false =>
        obtain ⟨hvars, hlast⟩ := hfits.fixed idx attr hsome hvariadic
        have hvar : vars[idx]? = some vars[idx] := List.getElem?_eq_getElem hvars
        have hmin : min idx (constraints.length - 1) = idx := by omega
        rw [if_neg (by simp), if_neg (fun h ↦ hvars.ne h.1),
          innerLoop_fixed isVariadic verify toString vars hvariadic hvars,
          checksFrom_succ constraints vars hvars, hmin, checkAll]
        simp only [hsome, hvar]
        cases hverify : verify attr vars[idx] with
        | false => rfl
        | true =>
          rw [if_pos rfl, if_pos rfl]
          have hidx' : idx + 1 < constraints.length ∨ vars.length ≤ idx + 1 := by omega
          have hrest' : constraints.length - (idx + 1) = rest := by omega
          simp only [ih hidx' hrest']
          rfl

theorem verifyRest_eq {attr : C} (hlast : constraints[constraints.length - 1]? = some attr)
    {idx : ℕ} (hle : constraints.length - 1 ≤ idx) :
    verifyRest verify toString attr idx (vars.drop idx) =
      (checkAll verify toString constraints vars (checksFrom constraints vars idx)).1 := by
  obtain ⟨rest, hrest⟩ : ∃ rest, vars.length - idx = rest := ⟨_, rfl⟩
  induction rest generalizing idx with
  | zero =>
    rw [List.drop_of_length_le (by omega), checksFrom_length constraints vars (by omega)]
    rfl
  | succ rest ih =>
    have hlt : idx < vars.length := by omega
    rw [List.drop_eq_getElem_cons hlt, verifyRest, checksFrom_succ constraints vars hlt,
      Nat.min_eq_right hle, checkAll, hlast, List.getElem?_eq_getElem hlt,
      ih (by omega) (by omega)]
    cases hverify : verify attr vars[idx] <;> simp [hverify]

/-- The offsets of the loop agree with the lists of what is left, where no iterator goes beyond
the end. -/
theorem outerLoop_eq_verifyConstraintsLastVariadic (hfits : Fits isVariadic constraints vars)
    {idx : ℕ} (hidx : idx < constraints.length ∨ vars.length ≤ idx)
    (hdefined : verifyConstraintsLastVariadic isVariadic verify toString idx
      (constraints.drop idx) (vars.drop idx) ≠ .undefined) :
    (outerLoop isVariadic verify toString constraints vars idx idx idx).1 =
      verifyConstraintsLastVariadic isVariadic verify toString idx (constraints.drop idx)
        (vars.drop idx) := by
  rw [outerLoop_eq verify toString hfits hidx]
  obtain ⟨rest, hrest⟩ : ∃ rest, constraints.length - idx = rest := ⟨_, rfl⟩
  induction rest generalizing idx with
  | zero =>
    rw [List.drop_of_length_le (by omega), checksFrom_length constraints vars (by omega)]
    rfl
  | succ rest ih =>
    have hlt : idx < constraints.length := by omega
    have hattr : constraints[idx]? = some constraints[idx] := List.getElem?_eq_getElem hlt
    rw [List.drop_eq_getElem_cons hlt, verifyConstraintsLastVariadic.eq_def] at hdefined ⊢
    cases hvariadic : isVariadic constraints[idx] with
    | true =>
      have hlast := (hfits.variadic idx _ hattr hvariadic).1
      have hnil : constraints.drop (idx + 1) = [] := List.drop_of_length_le (by omega)
      simp only [hvariadic, if_true, hnil, List.isEmpty_nil, Bool.not_true, Bool.false_eq_true,
        if_false] at hdefined ⊢
      rw [verifyRest_eq verify toString (hlast ▸ hattr) hlast.ge] at hdefined ⊢
      cases hdrop : vars.drop idx with
      | nil => simp [hdrop, checksFrom_length constraints vars (List.drop_eq_nil_iff.mp hdrop),
          checkAll, Outcome.andThen] at hdefined
      | cons var rest =>
        cases (checkAll verify toString constraints vars (checksFrom constraints vars idx)).1 <;> rfl
    | false =>
      obtain ⟨hvars, hlast⟩ := hfits.fixed idx _ hattr hvariadic
      have hmin : min idx (constraints.length - 1) = idx := by omega
      rw [List.drop_eq_getElem_cons hvars] at hdefined ⊢
      simp only [hvariadic, Bool.false_eq_true, if_false] at hdefined ⊢
      rw [checksFrom_succ constraints vars hvars, hmin, checkAll, hattr,
        List.getElem?_eq_getElem hvars]
      cases hverify : verify constraints[idx] vars[idx] with
      | false => simp [hverify]
      | true =>
        simp only [hverify, if_true] at hdefined ⊢
        exact ih (by omega) hdefined (by omega)

theorem mem_checksFrom_zero {attrIt it : ℕ} :
    (attrIt, it) ∈ checksFrom constraints vars 0 ↔
      it < vars.length ∧ attrIt = min it (constraints.length - 1) := by
  simp only [checksFrom, Nat.sub_zero, List.mem_map, List.mem_range', Prod.mk.injEq]
  constructor
  · rintro ⟨_, ⟨idx, hlt, rfl⟩, rfl, rfl⟩
    exact ⟨by omega, rfl⟩
  · rintro ⟨hlt, rfl⟩
    exact ⟨it, ⟨it, hlt, by omega⟩, rfl, rfl⟩

/-- The checks that are made are those up to the first that fails. -/
theorem checkAll_prefix (checks : List (ℕ × ℕ)) :
    (checkAll verify toString constraints vars checks).2 <+: checks := by
  induction checks with
  | nil => exact List.prefix_rfl
  | cons check checks ih =>
    rw [checkAll]
    split
    next attr var _ _ =>
      cases verify attr var with
      | true => exact (List.prefix_cons_inj check).mpr ih
      | false => exact ⟨checks, rfl⟩
    next => exact List.nil_prefix

theorem checkAll_of_success {checks : List (ℕ × ℕ)}
    (hsuccess : (checkAll verify toString constraints vars checks).1 = .success) :
    (checkAll verify toString constraints vars checks).2 = checks := by
  induction checks with
  | nil => rfl
  | cons check checks ih =>
    rw [checkAll] at hsuccess ⊢
    split at hsuccess
    next attr var _ _ =>
      cases hverify : verify attr var with
      | true =>
        rw [if_pos hverify] at hsuccess
        rw [if_pos rfl]
        simp only [ih hsuccess]
      | false => simp [hverify] at hsuccess
    next => cases hsuccess

/-- Checks of constraints and variables that there are. -/
theorem checkAll_iff {checks : List (ℕ × ℕ)}
    (hvalid : ∀ check ∈ checks, check.1 < constraints.length ∧ check.2 < vars.length) :
    (checkAll verify toString constraints vars checks).1 ≠ .undefined ∧
      ((checkAll verify toString constraints vars checks).1 = .success ↔
        ∀ check ∈ checks, ∀ attr var, constraints[check.1]? = some attr →
          vars[check.2]? = some var → verify attr var = true) := by
  induction checks with
  | nil => simp [checkAll]
  | cons check checks ih =>
    obtain ⟨hattr, hvar⟩ := hvalid check (List.mem_cons_self ..)
    have htail := ih fun check hcheck ↦ hvalid check (List.mem_cons_of_mem _ hcheck)
    rw [checkAll, List.getElem?_eq_getElem hattr, List.getElem?_eq_getElem hvar]
    rw [List.forall_mem_cons]
    simp only [List.getElem?_eq_getElem hattr, List.getElem?_eq_getElem hvar, Option.some.injEq]
    cases hverify : verify constraints[check.1] vars[check.2] with
    | true => simpa [hverify] using htail
    | false => simp [hverify]

/-! ## The law -/

/-- Verification against constraints of which the last may be variadic: the checks are one for each
variable in order, all if they succeed, and they succeed exactly if the constraints in front of the
variadic one hold of the variables at their positions, and what the variadic one wraps holds of all
the remaining variables. -/
structure LastVariadicLaw (isVariadic : C → Bool) (verify : C → T → Bool) (toString : C → String)
    (unwrap : C → Option C) (Satisfies : C → T → Prop) (constraints : List C) (vars : List T) :
    Prop where
  defined : (outerLoop isVariadic verify toString constraints vars 0 0 0).1 ≠ .undefined
  checks_prefix : (outerLoop isVariadic verify toString constraints vars 0 0 0).2 <+:
    (List.range vars.length).map fun it ↦ (min it (constraints.length - 1), it)
  checks_of_success : (outerLoop isVariadic verify toString constraints vars 0 0 0).1 = .success →
    (outerLoop isVariadic verify toString constraints vars 0 0 0).2 =
      (List.range vars.length).map fun it ↦ (min it (constraints.length - 1), it)
  success_iff : (outerLoop isVariadic verify toString constraints vars 0 0 0).1 = .success ↔
    (∀ (idx : ℕ) (attr : C) (var : T), constraints[idx]? = some attr → unwrap attr = none →
      vars[idx]? = some var → Satisfies attr var) ∧
    ∀ attr inner, constraints.getLast? = some attr → unwrap attr = some inner →
      ∀ var ∈ vars.drop (constraints.length - 1), Satisfies inner var

variable {unwrap : C → Option C} {Satisfies : C → T → Prop}

theorem Fits.forall_checks_iff (hfits : Fits isVariadic constraints vars)
    (hvariadic : ∀ attr, isVariadic attr = (unwrap attr).isSome)
    (hverify : ∀ attr var, verify attr var = true ↔ Satisfies attr var)
    (hunwrap : ∀ attr inner var, unwrap attr = some inner →
      (Satisfies attr var ↔ Satisfies inner var)) :
    (∀ check ∈ checksFrom constraints vars 0, ∀ attr var, constraints[check.1]? = some attr →
      vars[check.2]? = some var → verify attr var = true) ↔
    (∀ (idx : ℕ) (attr : C) (var : T), constraints[idx]? = some attr → unwrap attr = none →
      vars[idx]? = some var → Satisfies attr var) ∧
    ∀ attr inner, constraints.getLast? = some attr → unwrap attr = some inner →
      ∀ var ∈ vars.drop (constraints.length - 1), Satisfies inner var := by
  constructor
  · intro hchecks
    refine ⟨fun idx attr var hattr _ hvar ↦ ?_, fun attr inner hlast hinner var hmem ↦ ?_⟩
    · have hlt := (List.getElem?_eq_some_iff.mp hattr).1
      have hcheck : (idx, idx) ∈ checksFrom constraints vars 0 :=
        mem_checksFrom_zero.mpr ⟨(List.getElem?_eq_some_iff.mp hvar).1, by omega⟩
      exact (hverify attr var).mp (hchecks _ hcheck attr var hattr hvar)
    · obtain ⟨idx, hidx⟩ := List.mem_iff_getElem?.mp hmem
      rw [List.getElem?_drop] at hidx
      have hcheck : (constraints.length - 1, constraints.length - 1 + idx) ∈
          checksFrom constraints vars 0 :=
        mem_checksFrom_zero.mpr ⟨(List.getElem?_eq_some_iff.mp hidx).1, by omega⟩
      rw [List.getLast?_eq_getElem?] at hlast
      exact (hunwrap attr inner var hinner).mp
        ((hverify attr var).mp (hchecks _ hcheck attr var hlast hidx))
  · rintro ⟨hfixed, hrest⟩ ⟨attrIt, it⟩ hcheck attr var hattr hvar
    obtain ⟨hlt, hmin⟩ := mem_checksFrom_zero.mp hcheck
    simp only at hattr hvar
    rw [hverify]
    cases hinner : unwrap attr with
    | none =>
      have hnot : isVariadic attr = false := by rw [hvariadic, hinner]; rfl
      have hall := (hfits.fixed attrIt attr hattr hnot).2
      have heq : it = attrIt := by
        have hattrIt := (List.getElem?_eq_some_iff.mp hattr).1
        omega
      exact hfixed it attr var (heq ▸ hattr) hinner hvar
    | some inner =>
      have his : isVariadic attr = true := by rw [hvariadic, hinner]; rfl
      have hlast := (hfits.variadic attrIt attr hattr his).1
      rw [hunwrap attr inner var hinner]
      refine hrest attr inner (by rw [List.getLast?_eq_getElem?, ← hlast, hattr]) hinner var ?_
      rw [List.mem_iff_getElem?]
      exact ⟨it - (constraints.length - 1), by
        rw [List.getElem?_drop, ← hvar]
        congr 1
        omega⟩

theorem Fits.lastVariadicLaw (hfits : Fits isVariadic constraints vars)
    (hvariadic : ∀ attr, isVariadic attr = (unwrap attr).isSome)
    (hverify : ∀ attr var, verify attr var = true ↔ Satisfies attr var)
    (hunwrap : ∀ attr inner var, unwrap attr = some inner →
      (Satisfies attr var ↔ Satisfies inner var)) :
    LastVariadicLaw isVariadic verify toString unwrap Satisfies constraints vars := by
  have hidx : 0 < constraints.length ∨ vars.length ≤ 0 := by
    cases hconstraints : constraints with
    | nil => exact .inr (by rw [hfits.nil hconstraints]; rfl)
    | cons => exact .inl (Nat.zero_lt_succ _)
  have hloop := outerLoop_eq verify toString hfits hidx
  have hchecks : checksFrom constraints vars 0 =
      (List.range vars.length).map fun it ↦ (min it (constraints.length - 1), it) := by
    rw [checksFrom, Nat.sub_zero, List.range_eq_range']
  have hvalid : ∀ check ∈ checksFrom constraints vars 0,
      check.1 < constraints.length ∧ check.2 < vars.length := by
    rintro ⟨attrIt, it⟩ hcheck
    obtain ⟨hlt, hmin⟩ := mem_checksFrom_zero.mp hcheck
    refine ⟨?_, hlt⟩
    simp only
    omega
  obtain ⟨hdefined, hsuccess⟩ := checkAll_iff verify toString hvalid
  rw [← hloop] at hdefined hsuccess
  refine ⟨hdefined, ?_, fun h ↦ ?_, ?_⟩
  · rw [hloop, ← hchecks]
    exact checkAll_prefix verify toString _
  · rw [hloop] at h ⊢
    rw [← hchecks, checkAll_of_success verify toString h]
  · rw [hsuccess, hfits.forall_checks_iff verify hvariadic hverify hunwrap]

end Checks

/-! ## Regions and successors -/

/-- What a region constraint says of a region. -/
def RegionConstraint.Satisfies : RegionConstraint → Region → Prop
  | any, _ => True
  | sized numBlocks, region => region.numBlocks = numBlocks
  | isolatedFromAbove, region => region.isIsolatedFromAbove = true
  | variadic constraint, region => constraint.Satisfies region

/-- What a successor constraint says of a block. -/
def SuccessorConstraint.Satisfies : SuccessorConstraint → ℕ → Prop
  | any, _ => True
  | variadic constraint, block => constraint.Satisfies block

/-- What a variadic constraint wraps. -/
def RegionConstraint.unwrap : RegionConstraint → Option RegionConstraint
  | variadic constraint => some constraint
  | _ => none

def SuccessorConstraint.unwrap : SuccessorConstraint → Option SuccessorConstraint
  | variadic constraint => some constraint
  | any => none

theorem RegionConstraint.verify_iff (constraint : RegionConstraint) (region : Region) :
    constraint.verify region = true ↔ constraint.Satisfies region := by
  induction constraint with
  | any => simp [RegionConstraint.verify, RegionConstraint.Satisfies]
  | sized numBlocks => simp [RegionConstraint.verify, RegionConstraint.Satisfies]
  | isolatedFromAbove => rfl
  | variadic constraint ih => exact ih

theorem SuccessorConstraint.verify_iff (constraint : SuccessorConstraint) (block : ℕ) :
    constraint.verify block = true ↔ constraint.Satisfies block := by
  induction constraint with
  | any => simp [SuccessorConstraint.verify, SuccessorConstraint.Satisfies]
  | variadic constraint ih => exact ih

/-- The law of the loop, for every accepted list of region constraints and of successor
constraints, and every list of regions and successors of a fitting length. -/
theorem verifyConstraintsLastVariadic_lawful :
    (∀ (constraints : List RegionConstraint) (regions : List Region),
      verifyConstraintList RegionConstraint.isVariadic "region" constraints = .ok () →
      LengthsFit RegionConstraint.isVariadic constraints regions →
      LastVariadicLaw RegionConstraint.isVariadic
        (fun constraint region ↦ constraint.verify region) RegionConstraint.toString
        RegionConstraint.unwrap RegionConstraint.Satisfies constraints regions) ∧
    ∀ (constraints : List SuccessorConstraint) (successors : List ℕ),
      verifyConstraintList SuccessorConstraint.isVariadic "successor" constraints = .ok () →
      LengthsFit SuccessorConstraint.isVariadic constraints successors →
      LastVariadicLaw SuccessorConstraint.isVariadic
        (fun constraint block ↦ constraint.verify block) SuccessorConstraint.toString
        SuccessorConstraint.unwrap SuccessorConstraint.Satisfies constraints successors := by
  refine ⟨fun constraints regions hlist hlengths ↦ ?_, fun constraints blocks hlist hlengths ↦ ?_⟩
  · have hfits := Fits.of_verifyConstraintList hlist hlengths
    refine hfits.lastVariadicLaw _ _ ?_ RegionConstraint.verify_iff ?_
    · intro constraint
      cases constraint <;> rfl
    · intro constraint inner region hinner
      cases constraint <;> cases hinner
      rfl
  · have hfits := Fits.of_verifyConstraintList hlist hlengths
    refine hfits.lastVariadicLaw _ _ ?_ SuccessorConstraint.verify_iff ?_
    · intro constraint
      cases constraint <;> rfl
    · intro constraint inner block hinner
      cases constraint <;> cases hinner
      rfl

/-- A variadic constraint in a variadic one, with an empty part, and with two regions. -/
theorem verifyConstraintsLastVariadic_lawful_nested :
    LastVariadicLaw RegionConstraint.isVariadic
      (fun constraint region ↦ constraint.verify region) RegionConstraint.toString
      RegionConstraint.unwrap RegionConstraint.Satisfies
      [.sized 1, .variadic (.variadic .isolatedFromAbove)] [⟨1, false⟩] ∧
    LastVariadicLaw SuccessorConstraint.isVariadic
      (fun constraint block ↦ constraint.verify block) SuccessorConstraint.toString
      SuccessorConstraint.unwrap SuccessorConstraint.Satisfies
      [.any, .variadic .any] [4, 2, 4] := by
  refine ⟨verifyConstraintsLastVariadic_lawful.1 _ _ (by decide) ?_,
    verifyConstraintsLastVariadic_lawful.2 _ _ (by decide) ?_⟩
  · unfold LengthsFit
    decide
  · unfold LengthsFit
    decide

end DeclarativeMlir.Spec
