import Mathlib.Data.List.Basic
import Mathlib.Data.List.Infix
import Mathlib.Logic.Function.Basic
import Mathlib.Tactic.Cases

/-!
# Transactions made of insertions

An insertion into a map never overwrites: it fails if the key is taken. A transaction makes a list
of insertions and returns at the first one that fails, without undoing the ones before it. For
insertions into unrelated maps this is atomic exactly if no insertion but the first one can fail.
The last section is about sequences of calls, each of which may fail or succeed.
-/

namespace DeclarativeMlir.Transactions

/-- An insertion takes effect if its key is fresh, which it is not afterwards. -/
structure Insertion (S : Type*) where
  fresh : S → Bool
  insert : S → S
  fresh_insert : ∀ s, fresh (insert s) = false

/-- The insertion of `value` under `key` into the map that `get` and `set` give access to. -/
def Insertion.emplace {S K V : Type*} [DecidableEq K] (get : S → K → Option V)
    (set : S → (K → Option V) → S) (hget : ∀ s map, get (set s map) = map) (key : K) (value : V) :
    Insertion S where
  fresh s := (get s key).isNone
  insert s := set s (Function.update (get s) key (some value))
  fresh_insert s := by rw [hget, Function.update_self]; rfl

variable {S : Type*}

/-- Neither insertion has a say in whether the other one succeeds. -/
def Independent (first second : Insertion S) : Prop :=
  (∀ s, second.fresh (first.insert s) = second.fresh s) ∧
    ∀ s, first.fresh (second.insert s) = first.fresh s

/-- Insert one by one, and return at the first failure. -/
def insertAll : List (Insertion S) → S → Bool × S
  | [], s => (true, s)
  | insertion :: rest, s =>
    if insertion.fresh s then insertAll rest (insertion.insert s) else (false, s)

/-- A call that fails leaves the state as it was. -/
def Atomic (call : S → Bool × S) (s : S) : Prop :=
  (call s).1 = false → (call s).2 = s

theorem insertAll_cons_of_fresh {insertion : Insertion S} {s : S} (rest : List (Insertion S))
    (hfresh : insertion.fresh s = true) :
    insertAll (insertion :: rest) s = insertAll rest (insertion.insert s) := by
  rw [insertAll, if_pos hfresh]

theorem insertAll_cons_of_not_fresh {insertion : Insertion S} {s : S} (rest : List (Insertion S))
    (hfresh : insertion.fresh s = false) :
    insertAll (insertion :: rest) s = (false, s) := by
  rw [insertAll, if_neg (by simp [hfresh])]

/-- What no insertion of a transaction changes, the transaction does not change. -/
theorem insertAll_frame {W : Type*} (view : S → W) {insertions : List (Insertion S)}
    (hview : ∀ insertion ∈ insertions, ∀ s, view (insertion.insert s) = view s) (s : S) :
    view (insertAll insertions s).2 = view s := by
  induction insertions generalizing s with
  | nil => rfl
  | cons insertion rest ih =>
    have hrest := ih fun other hother ↦ hview other (List.mem_cons_of_mem _ hother)
    cases hfresh : insertion.fresh s with
    | false => rw [insertAll_cons_of_not_fresh rest hfresh]
    | true =>
      rw [insertAll_cons_of_fresh rest hfresh, hrest]
      exact hview insertion (List.mem_cons_self ..) s

/-- Insertions that are independent of `insertion` do not free its key, and do not take it. -/
theorem fresh_insertAll {insertion : Insertion S} {rest : List (Insertion S)}
    (hrest : ∀ other ∈ rest, Independent insertion other) (s : S) :
    insertion.fresh (insertAll rest s).2 = insertion.fresh s := by
  induction rest generalizing s with
  | nil => rfl
  | cons other rest ih =>
    have hother := hrest other (List.mem_cons_self ..)
    have htail := ih fun next hnext ↦ hrest next (List.mem_cons_of_mem _ hnext)
    cases hfresh : other.fresh s with
    | false => rw [insertAll_cons_of_not_fresh rest hfresh]
    | true =>
      rw [insertAll_cons_of_fresh rest hfresh, htail]
      exact hother.2 s

/-- Independent insertions succeed together exactly if every key is fresh at the start. -/
theorem insertAll_succeeds_iff {insertions : List (Insertion S)}
    (hpairwise : insertions.Pairwise Independent) (s : S) :
    (insertAll insertions s).1 = true ↔ ∀ insertion ∈ insertions, insertion.fresh s = true := by
  induction insertions generalizing s with
  | nil => simp [insertAll]
  | cons insertion rest ih =>
    rw [List.pairwise_cons] at hpairwise
    cases hfresh : insertion.fresh s with
    | false =>
      rw [insertAll_cons_of_not_fresh rest hfresh]
      simp [hfresh]
    | true =>
      rw [insertAll_cons_of_fresh rest hfresh, ih hpairwise.2, List.forall_mem_cons]
      constructor
      · intro hrest
        refine ⟨hfresh, fun other hother ↦ ?_⟩
        rw [← (hpairwise.1 other hother).1 s]
        exact hrest other hother
      · rintro ⟨-, hrest⟩ other hother
        rw [(hpairwise.1 other hother).1 s]
        exact hrest other hother

/-- Once the first insertion has been made, a later failure leaves it behind. -/
theorem insertAll_atomic_iff {insertion : Insertion S} {rest : List (Insertion S)}
    (hpairwise : (insertion :: rest).Pairwise Independent) (s : S) :
    Atomic (insertAll (insertion :: rest)) s ↔
      (insertion.fresh s = true → ∀ other ∈ rest, other.fresh s = true) := by
  have hsucceeds := insertAll_succeeds_iff hpairwise s
  rw [List.forall_mem_cons] at hsucceeds
  constructor
  · intro hatomic hfresh
    cases hresult : (insertAll (insertion :: rest) s).1 with
    | true => exact (hsucceeds.mp hresult).2
    | false =>
      have hleft : insertion.fresh (insertAll (insertion :: rest) s).2 = false := by
        rw [insertAll_cons_of_fresh rest hfresh,
          fresh_insertAll (List.pairwise_cons.mp hpairwise).1, insertion.fresh_insert]
      rw [hatomic hresult, hfresh] at hleft
      contradiction
  · intro hrest hresult
    cases hfresh : insertion.fresh s with
    | false => rw [insertAll_cons_of_not_fresh rest hfresh]
    | true =>
      have hall := hsucceeds.mpr ⟨hfresh, hrest hfresh⟩
      rw [hall] at hresult
      contradiction

/-! ## Sequences of calls -/

section Calls

variable {C : Type*} (step : S → C → Bool × S)

/-- The state after a sequence of calls. -/
def after (s : S) (calls : List C) : S :=
  calls.foldl (fun s call ↦ (step s call).2) s

/-- `P` holds of every call of the sequence, at the state in which it is made. -/
def EachCall (P : S → C → Prop) (s : S) (calls : List C) : Prop :=
  ∀ before call rest, calls = before ++ call :: rest → P (after step s before) call

variable {step}

@[simp]
theorem after_nil (s : S) : after step s [] = s := rfl

@[simp]
theorem after_cons (s : S) (call : C) (calls : List C) :
    after step s (call :: calls) = after step (step s call).2 calls := rfl

@[simp]
theorem after_append (s : S) (first second : List C) :
    after step s (first ++ second) = after step (after step s first) second :=
  List.foldl_append

/-- What holds at the start and is kept by each call holds in every reachable state. -/
theorem after_induction {P : S → Prop} {s : S} (hstart : P s)
    (hstep : ∀ s call, P s → P (step s call).2) (calls : List C) : P (after step s calls) := by
  induction calls generalizing s with
  | nil => exact hstart
  | cons call calls ih => exact ih (hstep s call hstart)

theorem EachCall.of_prefix {P : S → C → Prop} {s : S} {calls before : List C}
    (hcalls : EachCall step P s calls) (hbefore : before <+: calls) :
    EachCall step P s before := by
  obtain ⟨rest, rfl⟩ := hbefore
  intro earlier call later heq
  exact hcalls earlier call (later ++ rest) (by simp [heq])

/-- The same rule, for what is kept only by calls at which `Q` holds. -/
theorem EachCall.after_induction {P : S → Prop} {Q : S → C → Prop} {s : S} {calls : List C}
    (hcalls : EachCall step Q s calls) (hstart : P s)
    (hstep : ∀ s call, P s → Q s call → P (step s call).2) : P (after step s calls) := by
  induction calls using List.reverseRecOn with
  | nil => exact hstart
  | append_singleton calls call ih =>
    have hlast := hcalls calls call [] rfl
    rw [after_append]
    exact hstep _ call (ih (hcalls.of_prefix (List.prefix_append ..))) hlast

end Calls

end DeclarativeMlir.Transactions
