import Mathlib.Data.List.Basic
import Mathlib.Tactic.Cases

/-!
# Parsing with checks

Parsers that take tokens from the front of a list, check and change a state while they read, and
fail with an error. The first half is about what a run can do, the second half about the runs on a
text that is known.
-/

namespace DeclarativeMlir.CheckedParsing

structure Input (T σ : Type) where
  tokens : List T
  state : σ

/-- A parser fails, or gives a value, the tokens that are left and the new state. -/
abbrev Parser (T σ ε α : Type) := StateT (Input T σ) (Except ε) α

variable {T σ ε α β : Type}

/-! ## What a run can do -/

/-- A run gives a value and an input for which `post` holds, or an error for which `fail` holds. -/
def Sat (p : Parser T σ ε α) (input : Input T σ) (post : α → Input T σ → Prop)
    (fail : ε → Prop) : Prop :=
  match p.run input with
  | .ok (a, rest) => post a rest
  | .error e => fail e

section Sat

variable {p : Parser T σ ε α} {input : Input T σ} {post post' : α → Input T σ → Prop}
variable {fail fail' : ε → Prop}

namespace Sat

theorem ok {a : α} {rest : Input T σ} (h : Sat p input post fail)
    (hrun : p.run input = .ok (a, rest)) : post a rest := by
  rw [Sat, hrun] at h
  exact h

theorem error {e : ε} (h : Sat p input post fail) (hrun : p.run input = .error e) : fail e := by
  rw [Sat, hrun] at h
  exact h

theorem mono (h : Sat p input post fail) (hpost : ∀ a rest, post a rest → post' a rest) :
    Sat p input post' fail := by
  unfold Sat at h ⊢
  split
  · rename_i a rest hrun
    rw [hrun] at h
    exact hpost a rest h
  · rename_i e hrun
    rwa [hrun] at h

theorem bind {f : α → Parser T σ ε β} {post : β → Input T σ → Prop}
    (h : Sat p input (fun a rest ↦ Sat (f a) rest post fail) fail) :
    Sat (p >>= f) input post fail := by
  unfold Sat at h ⊢
  rw [StateT.run_bind]
  cases hrun : p.run input with
  | ok result =>
    rw [hrun] at h
    exact h
  | error e =>
    rw [hrun] at h
    exact h

theorem andThen {f : α → Parser T σ ε β} {post' : β → Input T σ → Prop} (h : Sat p input post fail)
    (hf : ∀ a rest, post a rest → Sat (f a) rest post' fail) : Sat (p >>= f) input post' fail :=
  bind (h.mono hf)

theorem map {f : α → β} {post : β → Input T σ → Prop}
    (h : Sat p input (fun a rest ↦ post (f a) rest) fail) : Sat (f <$> p) input post fail := by
  rw [← bind_pure_comp]
  exact bind h

theorem pure {a : α} (h : post a input) : Sat (Pure.pure a : Parser T σ ε α) input post fail := h

theorem throw {e : ε} (h : fail e) : Sat (MonadExcept.throw e : Parser T σ ε α) input post fail := h

theorem get {post : Input T σ → Input T σ → Prop} (h : post input input) :
    Sat (MonadState.get : Parser T σ ε (Input T σ)) input post fail := h

theorem lift {x : Except ε α} (hok : ∀ a, x = .ok a → post a input)
    (herror : ∀ e, x = .error e → fail e) :
    Sat (StateT.lift x : Parser T σ ε α) input post fail := by
  cases x with
  | ok a => exact hok a rfl
  | error e => exact herror e rfl

end Sat

end Sat

/-! ## Runs on a known text -/

/-- In front of `rest`, the parser takes `text` and gives `a`, if `step` allows it. -/
def Reads (p : Parser T σ ε α) (text : List T) (a : α) (step : σ → Except ε σ) (rest : List T) :
    Prop :=
  ∀ state, p.run ⟨text ++ rest, state⟩ = (step state).map fun state' ↦ (a, ⟨rest, state'⟩)

namespace Reads

theorem pure (a : α) (rest : List T) :
    Reads (Pure.pure a : Parser T σ ε α) [] a Except.ok rest := fun _ ↦ rfl

theorem bind {p : Parser T σ ε α} {f : α → Parser T σ ε β} {text text' rest : List T} {a : α}
    {b : β} {step step' : σ → Except ε σ} (hp : Reads p text a step (text' ++ rest))
    (hf : Reads (f a) text' b step' rest) :
    Reads (p >>= f) (text ++ text') b (fun state ↦ step state >>= step') rest := by
  intro state
  rw [StateT.run_bind, List.append_assoc, hp state]
  change _ = (step state >>= step').map _
  cases step state with
  | ok state' => exact hf state'
  | error e => rfl

theorem map {p : Parser T σ ε α} {text rest : List T} {a : α} {step : σ → Except ε σ}
    (hp : Reads p text a step rest) (f : α → β) : Reads (f <$> p) text (f a) step rest := by
  intro state
  rw [StateT.run_map, hp state]
  cases step state <;> rfl

theorem congr {p : Parser T σ ε α} {text rest : List T} {a : α} {step step' : σ → Except ε σ}
    (hp : Reads p text a step rest) (h : ∀ state, step state = step' state) :
    Reads p text a step' rest := by
  intro state
  rw [hp state, h state]

/-- A parser that takes a token and leaves the state. -/
theorem bind_cons {p : Parser T σ ε α} {f : α → Parser T σ ε β} {t : T} {text rest : List T} {a : α}
    {b : β} {step : σ → Except ε σ} (hp : Reads p [t] a Except.ok (text ++ rest))
    (hf : Reads (f a) text b step rest) : Reads (p >>= f) (t :: text) b step rest :=
  bind hp hf

/-- A parser that takes nothing. -/
theorem bind_nil {p : Parser T σ ε α} {f : α → Parser T σ ε β} {text rest : List T} {a : α}
    {b : β} {step step' : σ → Except ε σ} (hp : Reads p [] a step (text ++ rest))
    (hf : Reads (f a) text b step' rest) :
    Reads (p >>= f) text b (fun state ↦ step state >>= step') rest :=
  bind hp hf

/-- The last step takes nothing and leaves the state. -/
theorem bind_pure {p : Parser T σ ε α} {f : α → Parser T σ ε β} {text rest : List T} {a : α}
    {b : β} {step : σ → Except ε σ} (hp : Reads p text a step rest)
    (hf : Reads (f a) [] b Except.ok rest) : Reads (p >>= f) text b step rest := by
  have h := bind hp hf
  rw [List.append_nil] at h
  apply h.congr
  intro state
  cases step state <;> rfl

end Reads

end DeclarativeMlir.CheckedParsing
