import Mathlib.Algebra.Order.Ring.Int
import Mathlib.Data.List.Basic
import Mathlib.Tactic.Cases

/-!
# Parsing of token lists

Parsers that take tokens from the front of a list, and when one reads back what a printer has
written.
-/

namespace DeclarativeMlir.TokenParsing

variable {T α β : Type}

/-- A parser fails, or gives a value and the tokens that are left. -/
abbrev Parser (T α : Type) := StateT (List T) Option α

theorem run_bind_eq_some {p : Parser T α} {f : α → Parser T β} {input rest : List T} {b : β} :
    (p >>= f).run input = some (b, rest) ↔
      ∃ a mid, p.run input = some (a, mid) ∧ (f a).run mid = some (b, rest) := by
  simp [StateT.run_bind, Option.bind_eq_some_iff]

theorem run_map_eq_some {p : Parser T α} {f : α → β} {input rest : List T} {b : β} :
    (f <$> p).run input = some (b, rest) ↔ ∃ a, p.run input = some (a, rest) ∧ f a = b := by
  simp [StateT.run_map]

/-- What a parser does with a token at the front. -/
def token (accept : T → Option α) : Parser T α := fun input ↦
  match input with
  | [] => none
  | t :: rest => (accept t).map fun a ↦ (a, rest)

/-- The next token without taking it. -/
def peek (test : T → Bool) : Parser T Bool := fun input ↦ some (input.head?.any test, input)

section Tokens

variable [DecidableEq T]

def expect (t : T) : Parser T Unit := token fun t' ↦ if t' = t then some () else none

/-- Whether the next token is `t`, which is then taken. -/
def optional (t : T) : Parser T Bool := fun input ↦
  match input with
  | [] => some (false, [])
  | t' :: rest => if t' = t then some (true, rest) else some (false, t' :: rest)

/-- `item (sep item)*`, for as many items as there is fuel. -/
def sepBy (item : Parser T α) (sep : T) : ℕ → Parser T (List α)
  | 0 => failure
  | fuel + 1 => do
    let a ← item
    if ← optional sep then
      let items ← sepBy item sep fuel
      return a :: items
    else return [a]

/-- Each separator is a token, so this is enough fuel. -/
def sepList (item : Parser T α) (sep : T) : Parser T (List α) := fun input ↦
  (sepBy item sep (input.length + 1)).run input

end Tokens

/-- One item, and another as long as `more` says so, for as many items as there is fuel. -/
def itemsBy (item : Parser T α) (more : Parser T Bool) : ℕ → Parser T (List α)
  | 0 => failure
  | fuel + 1 => do
    let a ← item
    if ← more then
      let items ← itemsBy item more fuel
      return a :: items
    else return [a]

/-- The rest of the input is enough fuel if `more` takes a token. -/
def items (item : Parser T α) (more : Parser T Bool) : Parser T (List α) := fun input ↦
  (itemsBy item more (input.length + 1)).run input

/-- The texts of the items with separators between them. -/
def interleave (sep : T) (print : α → List T) : List α → List T
  | [] => []
  | [a] => print a
  | a :: b :: items => print a ++ sep :: interleave sep print (b :: items)

theorem interleave_eq_interleave_map (sep : T) (print : α → List T) (items : List α) :
    interleave sep print items = interleave sep id (items.map print) := by
  induction items with
  | nil => rfl
  | cons a items ih =>
    cases items with
    | nil => rfl
    | cons b items =>
      rw [interleave, ih]
      rfl

/-! ## Reading back -/

/-- In front of `rest`, the parser takes `text` and gives `a`. -/
def Reads (p : Parser T α) (text : List T) (a : α) (rest : List T) : Prop :=
  p.run (text ++ rest) = some (a, rest)

namespace Reads

theorem pure (a : α) (rest : List T) : Reads (Pure.pure a : Parser T α) [] a rest := rfl

theorem bind {p : Parser T α} {f : α → Parser T β} {text text' rest : List T} {a : α} {b : β}
    (hp : Reads p text a (text' ++ rest)) (hf : Reads (f a) text' b rest) :
    Reads (p >>= f) (text ++ text') b rest := by
  rw [Reads, run_bind_eq_some]
  exact ⟨a, text' ++ rest, by rw [List.append_assoc]; exact hp, hf⟩

theorem bind_cons {p : Parser T α} {f : α → Parser T β} {t : T} {text rest : List T} {a : α} {b : β}
    (hp : Reads p [t] a (text ++ rest)) (hf : Reads (f a) text b rest) :
    Reads (p >>= f) (t :: text) b rest :=
  bind hp hf

/-- The rest of a parser after what it reads. -/
theorem run_bind {p : Parser T α} {text rest : List T} {a : α} (hp : Reads p text a rest)
    (f : α → Parser T β) : (p >>= f).run (text ++ rest) = (f a).run rest := by
  rw [StateT.run_bind, hp]
  rfl

theorem map {p : Parser T α} {text rest : List T} {a : α} (hp : Reads p text a rest)
    (f : α → β) : Reads (f <$> p) text (f a) rest := by
  rw [Reads, run_map_eq_some]
  exact ⟨a, hp, rfl⟩

/-- A parser that takes nothing. -/
theorem bind_nil {p : Parser T α} {f : α → Parser T β} {text rest : List T} {a : α} {b : β}
    (hp : Reads p [] a (text ++ rest)) (hf : Reads (f a) text b rest) :
    Reads (p >>= f) text b rest :=
  bind hp hf

/-- The last step takes nothing. -/
theorem bind_pure {p : Parser T α} {f : α → Parser T β} {text rest : List T} {a : α} {b : β}
    (hp : Reads p text a rest) (hf : Reads (f a) [] b rest) : Reads (p >>= f) text b rest := by
  rw [← List.append_nil text]
  exact bind hp hf

theorem token {accept : T → Option α} {t : T} {a : α} (h : accept t = some a) (rest : List T) :
    Reads (TokenParsing.token accept) [t] a rest := by
  simp [Reads, TokenParsing.token, StateT.run, h]

theorem peek (test : T → Bool) (input : List T) :
    Reads (TokenParsing.peek test) [] (input.head?.any test) input := rfl

section Tokens

variable [DecidableEq T]

theorem expect (t : T) (rest : List T) : Reads (TokenParsing.expect t) [t] () rest :=
  Reads.token (by simp) rest

theorem optional_true (t : T) (rest : List T) : Reads (optional t) [t] true rest := by
  simp [Reads, optional, StateT.run]

theorem optional_false {t : T} {rest : List T} (h : rest.head? ≠ some t) :
    Reads (optional t) [] false rest := by
  cases rest with
  | nil => rfl
  | cons t' rest =>
    have hne : t' ≠ t := by simpa using h
    simp [Reads, optional, StateT.run, hne]

/-- An item is followed by a separator or by `rest`. -/
theorem sepBy {item : Parser T α} {sep : T} {print : α → List T} {items : List α} {rest : List T}
    (hitem : ∀ a ∈ items, ∀ rest', rest'.head? = some sep ∨ rest' = rest →
      Reads item (print a) a rest') (hne : items ≠ [])
    (hrest : rest.head? ≠ some sep) {fuel : ℕ} (hfuel : items.length ≤ fuel) :
    Reads (TokenParsing.sepBy item sep fuel) (interleave sep print items) items rest := by
  induction items generalizing fuel with
  | nil => exact absurd rfl hne
  | cons a items ih =>
    cases fuel with
    | zero => simp at hfuel
    | succ fuel =>
      have ha := hitem a (List.mem_cons_self ..)
      rw [TokenParsing.sepBy]
      cases items with
      | nil =>
        apply bind_pure (ha rest (.inr rfl))
        exact bind_nil (optional_false hrest) (pure _ _)
      | cons b items =>
        have htail := ih (fun c hc ↦ hitem c (List.mem_cons_of_mem _ hc))
          (List.cons_ne_nil b items) (Nat.le_of_succ_le_succ hfuel)
        rw [interleave]
        apply bind (ha _ (.inl rfl))
        apply bind_cons (optional_true sep _)
        exact bind_pure htail (pure _ _)

omit [DecidableEq T] in
theorem length_le_length_interleave (sep : T) (print : α → List T) (items : List α) :
    items.length ≤ (interleave sep print items).length + 1 := by
  induction items with
  | nil => simp
  | cons a items ih =>
    cases items with
    | nil => simp
    | cons b items =>
      simp only [interleave, List.length_append, List.length_cons] at ih ⊢
      omega

theorem sepList {item : Parser T α} {sep : T} {print : α → List T} {items : List α}
    {rest : List T} (hitem : ∀ a ∈ items, ∀ rest', rest'.head? = some sep ∨ rest' = rest →
      Reads item (print a) a rest') (hne : items ≠ []) (hrest : rest.head? ≠ some sep) :
    Reads (TokenParsing.sepList item sep) (interleave sep print items) items rest := by
  have hlength := length_le_length_interleave sep print items
  apply sepBy hitem hne hrest
  rw [List.length_append]
  omega

end Tokens

end Reads

/-! ## Reading or failing -/

/-- In front of `rest`, the parser takes `text` and gives `a` if `result` is `some a`; else it
fails. -/
def Yields (p : Parser T α) (text : List T) (result : Option α) (rest : List T) : Prop :=
  p.run (text ++ rest) = result.map fun a ↦ (a, rest)

theorem Reads.yields {p : Parser T α} {text rest : List T} {a : α} (hp : Reads p text a rest) :
    Yields p text (some a) rest := hp

namespace Yields

theorem pure (a : α) (rest : List T) : Yields (Pure.pure a : Parser T α) [] (some a) rest := rfl

theorem bind {p : Parser T α} {f : α → Parser T β} {text text' rest : List T} {result : Option α}
    {g : α → Option β} (hp : Yields p text result (text' ++ rest))
    (hf : ∀ a, result = some a → Yields (f a) text' (g a) rest) :
    Yields (p >>= f) (text ++ text') (result.bind g) rest := by
  rw [Yields, StateT.run_bind, List.append_assoc, hp]
  cases result with
  | none => rfl
  | some a => exact hf a rfl

theorem bind_cons {p : Parser T α} {f : α → Parser T β} {t : T} {text rest : List T}
    {result : Option α} {g : α → Option β} (hp : Yields p [t] result (text ++ rest))
    (hf : ∀ a, result = some a → Yields (f a) text (g a) rest) :
    Yields (p >>= f) (t :: text) (result.bind g) rest :=
  bind hp hf

theorem bind_nil {p : Parser T α} {f : α → Parser T β} {text rest : List T} {result : Option α}
    {g : α → Option β} (hp : Yields p [] result (text ++ rest))
    (hf : ∀ a, result = some a → Yields (f a) text (g a) rest) :
    Yields (p >>= f) text (result.bind g) rest :=
  bind hp hf

/-- The last step takes nothing. -/
theorem bind_pure {p : Parser T α} {f : α → Parser T β} {text rest : List T} {result : Option α}
    {g : α → Option β} (hp : Yields p text result rest)
    (hf : ∀ a, result = some a → Yields (f a) [] (g a) rest) :
    Yields (p >>= f) text (result.bind g) rest := by
  rw [← List.append_nil text]
  exact bind hp hf

/-- Each entry is a text with what it is read as, and is followed by a separator or by `rest`. -/
theorem itemsBy {item : Parser T α} {more : Parser T Bool} {sep : T}
    {entries : List (List T × Option α)} {rest : List T}
    (hitem : ∀ entry ∈ entries, ∀ rest', rest'.head? = some sep ∨ rest' = rest →
      Yields item entry.1 entry.2 rest') (hmore : ∀ rest', Reads more [sep] true rest')
    (hrest : Reads more [] false rest) (hne : entries ≠ []) {fuel : ℕ}
    (hfuel : entries.length ≤ fuel) :
    Yields (TokenParsing.itemsBy item more fuel) (interleave sep Prod.fst entries)
      (entries.mapM Prod.snd) rest := by
  induction entries generalizing fuel with
  | nil => exact absurd rfl hne
  | cons entry entries ih =>
    cases fuel with
    | zero => simp at hfuel
    | succ fuel =>
      have hentry := hitem entry (List.mem_cons_self ..)
      rw [TokenParsing.itemsBy, List.mapM_cons]
      cases entries with
      | nil =>
        apply bind_pure (hentry rest (.inr rfl))
        intro a _
        have hnil : (do
            let items ← ([] : List (List T × Option α)).mapM Prod.snd
            Pure.pure (a :: items)) = (some false).bind fun _ ↦ some [a] := rfl
        rw [hnil]
        apply bind_nil hrest.yields
        intro more hmore'
        cases hmore'
        exact pure _ _
      | cons entry' entries =>
        have htail := ih (fun entry hentry ↦ hitem entry (List.mem_cons_of_mem _ hentry))
          (List.cons_ne_nil _ _) (Nat.le_of_succ_le_succ hfuel)
        rw [interleave]
        apply bind (hentry _ (.inl rfl))
        intro a _
        have hsome : (do
            let items ← (entry' :: entries).mapM Prod.snd
            Pure.pure (a :: items)) = (some true).bind fun _ ↦
              ((entry' :: entries).mapM Prod.snd).bind fun items ↦ some (a :: items) := rfl
        rw [hsome]
        apply bind_cons (hmore _).yields
        intro more hmore'
        cases hmore'
        exact bind_pure htail fun items _ ↦ pure _ _

theorem items {item : Parser T α} {more : Parser T Bool} {sep : T}
    {entries : List (List T × Option α)} {rest : List T}
    (hitem : ∀ entry ∈ entries, ∀ rest', rest'.head? = some sep ∨ rest' = rest →
      Yields item entry.1 entry.2 rest') (hmore : ∀ rest', Reads more [sep] true rest')
    (hrest : Reads more [] false rest) (hne : entries ≠ []) :
    Yields (TokenParsing.items item more) (interleave sep Prod.fst entries)
      (entries.mapM Prod.snd) rest := by
  have hlength := Reads.length_le_length_interleave sep Prod.fst entries
  apply itemsBy hitem hmore hrest hne
  rw [List.length_append]
  omega

end Yields

/-! ## What a parser can give -/

theorem mem_of_run_sepBy [DecidableEq T] {item : Parser T α} {sep : T} {P : α → Prop}
    (hitem : ∀ input a rest, item.run input = some (a, rest) → P a) {fuel : ℕ} {input : List T}
    {items : List α} {rest : List T} (h : (sepBy item sep fuel).run input = some (items, rest)) :
    ∀ a ∈ items, P a := by
  induction fuel generalizing input items rest with
  | zero => exact absurd h (Option.some_ne_none _).symm
  | succ fuel ih =>
    rw [sepBy, run_bind_eq_some] at h
    obtain ⟨a, mid, ha, h⟩ := h
    rw [run_bind_eq_some] at h
    obtain ⟨more, mid', -, h⟩ := h
    have hP := hitem _ _ _ ha
    cases more with
    | false =>
      obtain ⟨rfl, -⟩ := Prod.mk.inj (Option.some.inj h)
      simpa using hP
    | true =>
      obtain ⟨items', mid'', hitems, h⟩ := run_bind_eq_some.mp h
      obtain ⟨rfl, -⟩ := Prod.mk.inj (Option.some.inj h)
      rw [List.forall_mem_cons]
      exact ⟨hP, ih hitems⟩

theorem mem_of_run_sepList [DecidableEq T] {item : Parser T α} {sep : T} {P : α → Prop}
    (hitem : ∀ input a rest, item.run input = some (a, rest) → P a) {input : List T}
    {items : List α} {rest : List T} (h : (sepList item sep).run input = some (items, rest)) :
    ∀ a ∈ items, P a :=
  mem_of_run_sepBy hitem h

/-- If every token of the input satisfies `Q`, then what the parser gives satisfies `P`, and the
tokens that are left still satisfy `Q`. -/
def Keeps (Q : T → Prop) (p : Parser T α) (P : α → Prop) : Prop :=
  ∀ input a rest, (∀ t ∈ input, Q t) → p.run input = some (a, rest) → P a ∧ ∀ t ∈ rest, Q t

namespace Keeps

variable {Q : T → Prop}

theorem pure {P : α → Prop} {a : α} (ha : P a) : Keeps Q (Pure.pure a) P := by
  intro input a' rest hinput h
  obtain ⟨rfl, rfl⟩ := Prod.mk.inj (Option.some.inj h)
  exact ⟨ha, hinput⟩

theorem failure {P : α → Prop} : Keeps Q (failure : Parser T α) P := by
  intro input a rest _ h
  exact absurd h (Option.some_ne_none _).symm

theorem bind {p : Parser T α} {f : α → Parser T β} {P : α → Prop} {P' : β → Prop}
    (hp : Keeps Q p P) (hf : ∀ a, P a → Keeps Q (f a) P') : Keeps Q (p >>= f) P' := by
  intro input b rest hinput h
  obtain ⟨a, mid, ha, h⟩ := run_bind_eq_some.mp h
  obtain ⟨hPa, hmid⟩ := hp input a mid hinput ha
  exact hf a hPa mid b rest hmid h

theorem itemsBy {item : Parser T α} {more : Parser T Bool} {P : α → Prop} (hitem : Keeps Q item P)
    (hmore : Keeps Q more fun _ ↦ True) (fuel : ℕ) :
    Keeps Q (TokenParsing.itemsBy item more fuel) fun items ↦ ∀ a ∈ items, P a := by
  induction fuel with
  | zero => exact failure
  | succ fuel ih =>
    apply bind hitem
    intro a ha
    apply bind hmore
    intro more _
    cases more with
    | false => exact pure (by simpa using ha)
    | true => exact bind ih fun items hitems ↦ pure (List.forall_mem_cons.mpr ⟨ha, hitems⟩)

theorem items {item : Parser T α} {more : Parser T Bool} {P : α → Prop} (hitem : Keeps Q item P)
    (hmore : Keeps Q more fun _ ↦ True) :
    Keeps Q (TokenParsing.items item more) fun items ↦ ∀ a ∈ items, P a :=
  fun input ↦ itemsBy hitem hmore (input.length + 1) input

end Keeps

/-! ## Mapped items -/

theorem sepBy_map [DecidableEq T] (item : Parser T α) (sep : T) (f : α → β) (fuel : ℕ) :
    sepBy (f <$> item) sep fuel = List.map f <$> sepBy item sep fuel := by
  induction fuel with
  | zero => rfl
  | succ fuel ih =>
    simp only [sepBy, ih, bind_map_left, map_bind]
    congr 1
    funext a
    congr 1
    funext more
    cases more <;> simp

/-- Lists of mapped items are mapped lists. -/
theorem sepList_map [DecidableEq T] (item : Parser T α) (sep : T) (f : α → β) :
    sepList (f <$> item) sep = List.map f <$> sepList item sep := by
  funext input
  simp only [sepList, sepBy_map]
  rfl

end DeclarativeMlir.TokenParsing
