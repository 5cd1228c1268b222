import Mathlib.Algebra.Order.Ring.Int
import Mathlib.Logic.Relation
import Mathlib.Algebra.BigOperators.Group.List.Basic

/-!
# Expanding the symbols of a list in place

`expand` replaces a symbol by a list of symbols and looks at nothing but the symbol. Steps at
two places then commute, so the list with nothing left to expand does not depend on the order of
the steps, and the expansion of a concatenation is the concatenation of the expansions.
-/

namespace DeclarativeMlir.LocalExpansion

open Relation

variable {α : Type*} {expand : α → Option (List α)}

/-- One symbol is replaced by its expansion. -/
inductive Step (expand : α → Option (List α)) : List α → List α → Prop where
  | mk (before : List α) {symbol : α} {symbols : List α} (after : List α)
      (hexpand : expand symbol = some symbols) :
      Step expand (before ++ symbol :: after) (before ++ (symbols ++ after))

/-- No symbol has an expansion. -/
def Terminal (expand : α → Option (List α)) (s : List α) : Prop :=
  ∀ symbol ∈ s, expand symbol = none

/-- `u` is a complete expansion of `s`. -/
def Normal (expand : α → Option (List α)) (s u : List α) : Prop :=
  ReflTransGen (Step expand) s u ∧ Terminal expand u

theorem Terminal.not_step {s u : List α} (hterminal : Terminal expand s) :
    ¬ Step expand s u := by
  rintro ⟨before, after, hexpand⟩
  have hnone := hterminal _ (List.mem_append_right before List.mem_cons_self)
  simp [hexpand] at hnone

theorem Terminal.reaches_eq {s u : List α} (hterminal : Terminal expand s)
    (hreach : ReflTransGen (Step expand) s u) : u = s := by
  rcases ReflTransGen.cases_head hreach with rfl | ⟨_, hstep, -⟩
  · rfl
  · exact absurd hstep hterminal.not_step

theorem terminal_append {s t : List α} :
    Terminal expand (s ++ t) ↔ Terminal expand s ∧ Terminal expand t := by
  simp only [Terminal, List.mem_append, or_imp, forall_and]

theorem Step.append_right {s s' : List α} (hstep : Step expand s s') (t : List α) :
    Step expand (s ++ t) (s' ++ t) := by
  obtain ⟨before, after, hexpand⟩ := hstep
  simpa only [List.append_assoc, List.cons_append] using Step.mk before (after ++ t) hexpand

theorem Step.append_left {t t' : List α} (hstep : Step expand t t') (s : List α) :
    Step expand (s ++ t) (s ++ t') := by
  obtain ⟨before, after, hexpand⟩ := hstep
  simpa only [List.append_assoc] using Step.mk (s ++ before) after hexpand

/-- A step in a concatenation is a step in one of the parts. -/
theorem Step.append_cases {s t u : List α} (hstep : Step expand (s ++ t) u) :
    (∃ s', Step expand s s' ∧ u = s' ++ t) ∨ ∃ t', Step expand t t' ∧ u = s ++ t' := by
  generalize hst : s ++ t = st at hstep
  obtain ⟨before, after, hexpand⟩ := hstep
  rcases List.append_eq_append_iff.mp hst with ⟨middle, rfl, rfl⟩ | ⟨middle, hs, ht⟩
  · right
    exact ⟨_, Step.mk middle after hexpand, by simp⟩
  · cases middle with
    | nil =>
      right
      simp only [List.nil_append] at ht
      subst ht
      exact ⟨_, Step.mk [] after hexpand, by simp_all⟩
    | cons symbol' middle =>
      left
      simp only [List.cons_append, List.cons.injEq] at ht
      obtain ⟨rfl, rfl⟩ := ht
      subst hs
      exact ⟨_, Step.mk before middle hexpand, by simp⟩

theorem reaches_append_cases {s t u : List α} (hreach : ReflTransGen (Step expand) (s ++ t) u) :
    ∃ s' t', u = s' ++ t' ∧ ReflTransGen (Step expand) s s' ∧
      ReflTransGen (Step expand) t t' := by
  induction hreach with
  | refl => exact ⟨s, t, rfl, .refl, .refl⟩
  | tail _ hstep ih =>
    obtain ⟨s', t', rfl, hs, ht⟩ := ih
    rcases hstep.append_cases with ⟨s'', hs', rfl⟩ | ⟨t'', ht', rfl⟩
    · exact ⟨s'', t', rfl, hs.tail hs', ht⟩
    · exact ⟨s', t'', rfl, hs, ht.tail ht'⟩

namespace Normal

theorem append {s t u v : List α} (hs : Normal expand s u) (ht : Normal expand t v) :
    Normal expand (s ++ t) (u ++ v) := by
  refine ⟨?_, terminal_append.mpr ⟨hs.2, ht.2⟩⟩
  exact (hs.1.lift (· ++ t) fun _ _ h ↦ h.append_right t).trans
    (ht.1.lift (u ++ ·) fun _ _ h ↦ h.append_left u)

/-- The complete expansion of a concatenation splits. -/
theorem append_cases {s t u : List α} (hnormal : Normal expand (s ++ t) u) :
    ∃ s' t', u = s' ++ t' ∧ Normal expand s s' ∧ Normal expand t t' := by
  obtain ⟨s', t', rfl, hs, ht⟩ := reaches_append_cases hnormal.1
  obtain ⟨hs', ht'⟩ := terminal_append.mp hnormal.2
  exact ⟨s', t', rfl, ⟨hs, hs'⟩, ⟨ht, ht'⟩⟩

theorem of_terminal {s u : List α} (hterminal : Terminal expand s)
    (hnormal : Normal expand s u) : u = s :=
  hterminal.reaches_eq hnormal.1

theorem nil {u : List α} (hnormal : Normal expand [] u) : u = [] :=
  of_terminal (by simp [Terminal]) hnormal

theorem symbol_expand {symbol : α} {symbols u : List α} (hexpand : expand symbol = some symbols)
    (hnormal : Normal expand [symbol] u) : Normal expand symbols u := by
  rcases ReflTransGen.cases_head hnormal.1 with rfl | ⟨s', hstep, hreach⟩
  · have hnone := hnormal.2 symbol (List.mem_singleton_self _)
    simp [hexpand] at hnone
  · have hs' : s' = symbols := by
      generalize hs : [symbol] = s at hstep
      obtain ⟨before, after, hexpand'⟩ := hstep
      cases before with
      | nil =>
        simp only [List.nil_append, List.cons.injEq] at hs
        obtain ⟨rfl, rfl⟩ := hs
        simpa [hexpand] using hexpand'.symm
      | cons => simp at hs
    exact ⟨hs' ▸ hreach, hnormal.2⟩

/-- The first symbol is terminal and stays in front. -/
theorem cons_terminal {symbol : α} {s u : List α} (hexpand : expand symbol = none)
    (hnormal : Normal expand (symbol :: s) u) : ∃ v, u = symbol :: v ∧ Normal expand s v := by
  obtain ⟨first, v, rfl, hfirst, hrest⟩ := append_cases (s := [symbol]) hnormal
  have hsingle := of_terminal (by simpa [Terminal] using hexpand) hfirst
  exact ⟨v, by simp [hsingle], hrest⟩

theorem cons_expand {symbol : α} {symbols s u : List α} (hexpand : expand symbol = some symbols)
    (hnormal : Normal expand (symbol :: s) u) :
    ∃ v w, u = v ++ w ∧ Normal expand symbols v ∧ Normal expand s w := by
  obtain ⟨v, w, rfl, hfirst, hrest⟩ := append_cases (s := [symbol]) hnormal
  exact ⟨v, w, rfl, symbol_expand hexpand hfirst, hrest⟩

theorem cons_of_terminal {symbol : α} {s u : List α} (hexpand : expand symbol = none)
    (hnormal : Normal expand s u) : Normal expand (symbol :: s) (symbol :: u) := by
  have hsymbol : Normal expand [symbol] [symbol] := ⟨.refl, by simpa [Terminal] using hexpand⟩
  exact hsymbol.append hnormal

theorem cons_of_expand {symbol : α} {symbols s u v : List α}
    (hexpand : expand symbol = some symbols) (hfirst : Normal expand symbols u)
    (hrest : Normal expand s v) : Normal expand (symbol :: s) (u ++ v) := by
  have hstep : Step expand [symbol] symbols := by simpa using Step.mk [] [] hexpand
  have hsymbol : Normal expand [symbol] u := ⟨hfirst.1.head hstep, hfirst.2⟩
  exact hsymbol.append hrest

end Normal

/-- Steps at two places commute. -/
theorem Step.diamond {s t u : List α} (ht : Step expand s t) (hu : Step expand s u) :
    ∃ v, ReflGen (Step expand) t v ∧ ReflTransGen (Step expand) u v := by
  obtain ⟨before, after, hexpand⟩ := ht
  rename_i symbol symbols
  rcases hu.append_cases with ⟨before', hstep, rfl⟩ | ⟨rest, hstep, rfl⟩
  · refine ⟨before' ++ (symbols ++ after), .single ?_, .single ?_⟩
    · exact hstep.append_right _
    · exact Step.mk before' after hexpand
  · rcases Step.append_cases (s := [symbol]) hstep with ⟨first, hfirst, rfl⟩ | ⟨after', hafter, rfl⟩
    · generalize hs : [symbol] = s at hfirst
      obtain ⟨before', after', hexpand'⟩ := hfirst
      cases before' with
      | nil =>
        simp only [List.nil_append, List.cons.injEq] at hs
        obtain ⟨rfl, rfl⟩ := hs
        obtain rfl : symbols = _ := by simpa [hexpand] using hexpand'
        refine ⟨_, .refl, ?_⟩
        simp only [List.nil_append, List.append_nil]
        exact .refl
      | cons => simp at hs
    · refine ⟨before ++ (symbols ++ after'), .single ?_, .single ?_⟩
      · exact (hafter.append_left symbols).append_left before
      · exact Step.mk before after' hexpand

/-- The complete expansion does not depend on the order of the steps. -/
theorem Normal.unique {s u v : List α} (hu : Normal expand s u) (hv : Normal expand s v) :
    u = v := by
  obtain ⟨w, huw, hvw⟩ := church_rosser (fun _ _ _ h h' ↦ h.diamond h') hu.1 hv.1
  rw [← hu.2.reaches_eq huw, hv.2.reaches_eq hvw]

/-- When expansions stay in a class of symbols and lower a weight, a list over that class has a
complete expansion. -/
theorem exists_normal (expand : α → Option (List α)) (symbols : α → Prop) (weight : α → ℕ)
    (hsymbols : ∀ {symbol expansion}, symbols symbol → expand symbol = some expansion →
      (∀ symbol' ∈ expansion, symbols symbol') ∧ (expansion.map weight).sum < weight symbol)
    {s : List α} (hs : ∀ symbol ∈ s, symbols symbol) :
    ∃ u, Normal expand s u ∧ ∀ symbol ∈ u, symbols symbol := by
  induction hn : (s.map weight).sum using Nat.strongRecOn generalizing s with
  | _ n ih =>
    by_cases hterminal : Terminal expand s
    · exact ⟨s, ⟨.refl, hterminal⟩, hs⟩
    · simp only [Terminal, not_forall] at hterminal
      obtain ⟨symbol, hmem, hexpand⟩ := hterminal
      obtain ⟨before, after, rfl⟩ := List.append_of_mem hmem
      obtain ⟨expansion, hexpansion⟩ := Option.ne_none_iff_exists'.mp hexpand
      obtain ⟨hclosed, hlt⟩ := hsymbols (hs symbol hmem) hexpansion
      have hmem' : ∀ symbol' ∈ before ++ (expansion ++ after), symbols symbol' := by
        intro symbol' hsymbol'
        simp only [List.mem_append, List.mem_cons] at hsymbol' hs
        rcases hsymbol' with h | h | h
        · exact hs symbol' (.inl h)
        · exact hclosed symbol' h
        · exact hs symbol' (.inr (.inr h))
      obtain ⟨u, hu, husymbols⟩ := ih ((before ++ (expansion ++ after)).map weight).sum
        (by simp at hn ⊢; omega) hmem' rfl
      exact ⟨u, ⟨hu.1.head (Step.mk before after hexpansion), hu.2⟩, husymbols⟩

end DeclarativeMlir.LocalExpansion
