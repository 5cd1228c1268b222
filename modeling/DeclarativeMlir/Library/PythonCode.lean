import Mathlib.Data.Set.Basic
import Mathlib.Algebra.Order.Ring.Int

/-!
# Python code

A part of Python: expressions with calls of methods, assignments, and blocks under an `if` or a
`while`. Statements are read off indented lines, and a function runs along any path through its
blocks, where a variable that is read must have been assigned.
-/

namespace PythonCode

/-! ## Syntax -/

inductive Expr where
  | name (id : String)
  | str (text : String)
  /-- `None`, `True`, `False` and numbers -/
  | const (text : String)
  | field (object : Expr) (field : String)
  | list (elements : List Expr)
  | call (function : Expr) (args : List Expr)
  | not (operand : Expr)
  /-- `left > right` -/
  | gt (left right : Expr)

namespace Expr

/-- `object.method(args)` -/
def method (object : Expr) (method : String) (args : List Expr) : Expr :=
  call (object.field method) args

mutual

/-- The variables that are read. -/
def reads : Expr → List String
  | name id => [id]
  | str _ => []
  | const _ => []
  | field object _ => object.reads
  | list elements => readsAll elements
  | call function args => function.reads ++ readsAll args
  | not operand => operand.reads
  | gt left right => left.reads ++ right.reads

def readsAll : List Expr → List String
  | [] => []
  | expr :: exprs => expr.reads ++ readsAll exprs

end

/-- A call of a method of a variable, with the number of its arguments. -/
structure Call where
  object : String
  method : String
  numArgs : ℕ
  deriving DecidableEq, Repr

/-- The call that a function expression makes with so many arguments, if the function is a method of
a variable. -/
def callOf (numArgs : ℕ) : Expr → List Call
  | field (name object) method => [⟨object, method, numArgs⟩]
  | _ => []

mutual

/-- All calls of methods of variables. -/
def calls : Expr → List Call
  | name _ => []
  | str _ => []
  | const _ => []
  | field object _ => object.calls
  | list elements => callsAll elements
  | call function args => callOf args.length function ++ function.calls ++ callsAll args
  | not operand => operand.calls
  | gt left right => left.calls ++ right.calls

def callsAll : List Expr → List Call
  | [] => []
  | expr :: exprs => expr.calls ++ callsAll exprs

end

end Expr

inductive Simple where
  /-- `targets = value`, where more than one target takes a tuple apart -/
  | assign (targets : List String) (value : Expr)
  /-- `target[idx] = value` -/
  | setItem (target : String) (idx : ℕ) (value : Expr)
  /-- `target += value` -/
  | augment (target : String) (value : Expr)
  /-- `object.field += value` -/
  | augmentField (object : Expr) (field : String) (value : Expr)
  | expr (value : Expr)
  | ret (value : Expr)

inductive Header where
  | ifThen (cond : Expr)
  | whileDo (cond : Expr)

/-- A list of statements. -/
inductive Code where
  | nil
  | simple (stmt : Simple) (rest : Code)
  | block (header : Header) (body rest : Code)

namespace Simple

def value : Simple → Expr
  | assign _ value => value
  | setItem _ _ value => value
  | augment _ value => value
  | augmentField _ _ value => value
  | expr value => value
  | ret value => value

def reads : Simple → List String
  | assign _ value => value.reads
  | setItem target _ value => target :: value.reads
  | augment target value => target :: value.reads
  | augmentField object _ value => object.reads ++ value.reads
  | expr value => value.reads
  | ret value => value.reads

def writes : Simple → List String
  | assign targets _ => targets
  | _ => []

def calls : Simple → List Expr.Call
  | augmentField object _ value => object.calls ++ value.calls
  | stmt => stmt.value.calls

end Simple

-- The equations are made once, here, and not by all the proofs below at the same time.
attribute [grind =] Expr.reads Expr.readsAll Expr.calls Expr.callsAll

attribute [grind =] Simple.value Simple.reads Simple.writes Simple.calls

def Header.cond : Header → Expr
  | ifThen cond => cond
  | whileDo cond => cond

namespace Code

def append : Code → Code → Code
  | nil, second => second
  | simple stmt rest, second => simple stmt (rest.append second)
  | block header body rest, second => block header body (rest.append second)

instance : Append Code := ⟨append⟩

def calls : Code → List Expr.Call
  | nil => []
  | simple stmt rest => stmt.calls ++ rest.calls
  | block header body rest => header.cond.calls ++ body.calls ++ rest.calls

/-- No block is empty. -/
def Filled : Code → Prop
  | nil => True
  | simple _ rest => rest.Filled
  | block _ body rest => body ≠ nil ∧ body.Filled ∧ rest.Filled

attribute [grind =] append calls Filled

@[simp]
theorem nil_append (code : Code) : nil ++ code = code := rfl

@[simp]
theorem simple_append (stmt : Simple) (rest code : Code) :
    simple stmt rest ++ code = simple stmt (rest ++ code) := rfl

@[simp]
theorem block_append (header : Header) (body rest code : Code) :
    block header body rest ++ code = block header body (rest ++ code) := rfl

@[simp]
theorem append_nil (code : Code) : code ++ nil = code := by
  induction code with
  | nil => rfl
  | simple stmt rest ih => rw [simple_append, ih]
  | block header body rest _ ih => rw [block_append, ih]

theorem append_assoc (first second third : Code) :
    first ++ second ++ third = first ++ (second ++ third) := by
  induction first with
  | nil => rfl
  | simple stmt rest ih => rw [simple_append, simple_append, simple_append, ih]
  | block header body rest _ ih => rw [block_append, block_append, block_append, ih]

@[simp]
theorem calls_append (first second : Code) :
    (first ++ second).calls = first.calls ++ second.calls := by
  induction first with
  | nil => rfl
  | simple stmt rest ih => rw [simple_append, calls, ih, calls, List.append_assoc]
  | block header body rest _ ih =>
    rw [block_append, calls, ih, calls, List.append_assoc _ rest.calls]

@[simp]
theorem filled_append (first second : Code) :
    (first ++ second).Filled ↔ first.Filled ∧ second.Filled := by
  induction first with
  | nil => simp [Filled]
  | simple stmt rest ih => rw [simple_append, Filled, ih, Filled]
  | block header body rest _ ih => rw [block_append, Filled, ih, Filled, and_assoc, and_assoc]

/-- One after the other. -/
def concat : List Code → Code
  | [] => nil
  | code :: codes => code ++ concat codes

attribute [grind =] concat

theorem mem_calls_concat {codes : List Code} {call : Expr.Call} :
    call ∈ (concat codes).calls ↔ ∃ code ∈ codes, call ∈ code.calls := by
  induction codes with
  | nil => simp [concat, calls]
  | cons code codes ih => simp [concat, ih]

theorem filled_concat {codes : List Code} :
    (concat codes).Filled ↔ ∀ code ∈ codes, code.Filled := by
  induction codes with
  | nil => simp [concat, Filled]
  | cons code codes ih => simp [concat, ih]

end Code

/-! ## Lines -/

/-- What stands on a line. -/
inductive Content where
  | simple (stmt : Simple)
  | header (header : Header)

structure Line where
  indent : ℕ
  content : Content

/-- The lines of statements, where a block is indented by four. -/
def Code.lines (n : ℕ) : Code → List Line
  | nil => []
  | simple stmt rest => ⟨n, .simple stmt⟩ :: rest.lines n
  | block header body rest => ⟨n, .header header⟩ :: (body.lines (n + 4) ++ rest.lines n)

/-- Which statements Python reads off lines. All lines of a list of statements have one indentation,
and the lines under a header are at least one and indented more. -/
inductive Reads : ℕ → List Line → Code → Prop where
  | nil (n : ℕ) : Reads n [] .nil
  | simple {n : ℕ} {stmt : Simple} {lines : List Line} {rest : Code} :
      Reads n lines rest → Reads n (⟨n, .simple stmt⟩ :: lines) (.simple stmt rest)
  | block {n m : ℕ} {header : Header} {inner lines : List Line} {body rest : Code} :
      n < m → inner ≠ [] → Reads m inner body → Reads n lines rest →
      Reads n (⟨n, .header header⟩ :: (inner ++ lines)) (.block header body rest)

attribute [grind =] Code.lines

namespace Code

@[simp]
theorem lines_append (n : ℕ) (first second : Code) :
    (first ++ second).lines n = first.lines n ++ second.lines n := by
  induction first with
  | nil => rfl
  | simple stmt rest ih => rw [simple_append, lines, ih, lines, List.cons_append]
  | block header body rest _ ih =>
    rw [block_append, lines, ih, lines, List.cons_append, List.append_assoc]

theorem lines_eq_nil {n : ℕ} {code : Code} : code.lines n = [] ↔ code = nil := by
  cases code <;> simp [lines]

theorem le_indent_of_mem_lines {n : ℕ} {code : Code} {line : Line} (h : line ∈ code.lines n) :
    n ≤ line.indent := by
  induction code generalizing n with
  | nil => simp [lines] at h
  | simple stmt rest ih =>
    rw [lines, List.mem_cons] at h
    rcases h with h | h
    · rw [h]
    · exact ih h
  | block header body rest ihbody ih =>
    rw [lines, List.mem_cons, List.mem_append] at h
    rcases h with h | h | h
    · rw [h]
    · exact (Nat.le_add_right n 4).trans (ihbody h)
    · exact ih h

theorem indent_head_lines {n : ℕ} {code : Code} {line : Line} {lines' : List Line}
    (h : code.lines n = line :: lines') : line.indent = n := by
  cases code with
  | nil => cases h
  | simple stmt rest => rw [← (List.cons.inj h).1]
  | block header body rest => rw [← (List.cons.inj h).1]

end Code

namespace Reads

theorem le_indent {n : ℕ} {lines : List Line} {code : Code} (h : Reads n lines code) :
    ∀ line ∈ lines, n ≤ line.indent := by
  induction h with
  | nil n => simp
  | simple _ ih =>
    rw [List.forall_mem_cons]
    exact ⟨le_rfl, ih⟩
  | block hlt _ _ _ ihbody ih =>
    rw [List.forall_mem_cons, List.forall_mem_append]
    exact ⟨le_rfl, fun line hline ↦ hlt.le.trans (ihbody line hline), ih⟩

theorem indent_head {n : ℕ} {line : Line} {lines : List Line} {code : Code}
    (h : Reads n (line :: lines) code) : line.indent = n := by
  cases h with
  | simple _ => rfl
  | block _ _ _ _ => rfl

/-- Statements are read back off their lines. -/
theorem of_lines {n : ℕ} {code : Code} (h : code.Filled) : Reads n (code.lines n) code := by
  induction code generalizing n with
  | nil => exact .nil n
  | simple stmt rest ih => exact .simple (ih h)
  | block header body rest ihbody ih =>
    have hbody : body.lines (n + 4) ≠ [] := fun hnil ↦ h.1 (Code.lines_eq_nil.mp hnil)
    exact .block (by omega) hbody (ihbody h.2.1) (ih h.2.2)

end Reads

/-- The part of a list in which a property holds, where it fails right behind. -/
theorem append_inj_of_forall {α : Type} {p : α → Prop} {first first' second second' : List α}
    (hfirst : ∀ a ∈ first, p a) (hfirst' : ∀ a ∈ first', p a)
    (hsecond : ∀ a ∈ second.head?, ¬ p a) (hsecond' : ∀ a ∈ second'.head?, ¬ p a)
    (h : first ++ second = first' ++ second') : first = first' ∧ second = second' := by
  induction first generalizing first' with
  | nil =>
    cases first' with
    | nil => exact ⟨rfl, h⟩
    | cons a first' =>
      have hp := hfirst' a (List.mem_cons_self ..)
      rw [List.nil_append] at h
      rw [h] at hsecond
      exact absurd hp (hsecond a rfl)
  | cons a first ih =>
    cases first' with
    | nil =>
      have hp := hfirst a (List.mem_cons_self ..)
      rw [List.nil_append] at h
      rw [← h] at hsecond'
      exact absurd hp (hsecond' a rfl)
    | cons a' first' =>
      rw [List.forall_mem_cons] at hfirst hfirst'
      obtain ⟨ha, h⟩ := List.cons.inj h
      obtain ⟨hfirst, hsecond⟩ := ih hfirst.2 hfirst'.2 h
      exact ⟨by rw [ha, hfirst], hsecond⟩

/-- Nothing but the statements themselves is read off their lines, and nothing at all if a block is
empty. -/
theorem reads_lines_iff {n : ℕ} {code code' : Code} :
    Reads n (code.lines n) code' ↔ code.Filled ∧ code' = code := by
  constructor
  · intro h
    induction code generalizing n code' with
    | nil =>
      cases h
      exact ⟨trivial, rfl⟩
    | simple stmt rest ih =>
      cases h with
      | simple hrest =>
        obtain ⟨hfilled, rfl⟩ := ih hrest
        exact ⟨hfilled, rfl⟩
    | block header body rest ihbody ih =>
      rw [Code.lines] at h
      generalize hall : body.lines (n + 4) ++ rest.lines n = all at h
      cases h with
      | @block _ m _ inner lines body' rest' hlt hne hbody hrest =>
        have hhead : ∀ line ∈ lines.head?, ¬ n < line.indent := by
          intro line hline
          obtain ⟨lines', rfl⟩ := List.head?_eq_some_iff.mp hline
          rw [hrest.indent_head]
          exact lt_irrefl n
        have hhead' : ∀ line ∈ (rest.lines n).head?, ¬ n < line.indent := by
          intro line hline
          obtain ⟨lines', hlines⟩ := List.head?_eq_some_iff.mp hline
          rw [Code.indent_head_lines hlines]
          exact lt_irrefl n
        obtain ⟨hinner, hlines⟩ := append_inj_of_forall
          (fun line hline ↦ lt_of_lt_of_le (by omega) (Code.le_indent_of_mem_lines hline))
          (fun line hline ↦ hlt.trans_le (hbody.le_indent line hline)) hhead' hhead hall
        have hm : m = n + 4 := by
          obtain ⟨line, inner', rfl⟩ := List.exists_cons_of_ne_nil hne
          rw [← hbody.indent_head, Code.indent_head_lines hinner]
        rw [← hinner, hm] at hbody
        rw [← hlines] at hrest
        obtain ⟨hbodyFilled, rfl⟩ := ihbody hbody
        obtain ⟨hrestFilled, rfl⟩ := ih hrest
        refine ⟨⟨?_, hbodyFilled, hrestFilled⟩, rfl⟩
        rintro rfl
        exact hne hinner.symm
  · rintro ⟨hfilled, rfl⟩
    exact .of_lines hfilled

/-! ## Paths -/

/-- How a path through statements ends. -/
inductive Outcome where
  /-- behind them, with some assigned variables -/
  | falls (assigned : Set String)
  | returns
  /-- at a variable that is read before it is assigned -/
  | unassigned (name : String)

/-- Assigned variables after a simple statement. -/
def Simple.after (stmt : Simple) (assigned : Set String) : Set String :=
  assigned ∪ {x | x ∈ stmt.writes}

/-- The paths through statements. A condition may hold or not hold whenever it is evaluated. -/
inductive Path : Set String → Code → Outcome → Prop where
  | nil (assigned : Set String) : Path assigned .nil (.falls assigned)
  | unassigned {assigned : Set String} {stmt : Simple} {rest : Code} {x : String} :
      x ∈ stmt.reads → x ∉ assigned → Path assigned (.simple stmt rest) (.unassigned x)
  | ret {assigned : Set String} {value : Expr} {rest : Code} :
      Path assigned (.simple (.ret value) rest) .returns
  | simple {assigned : Set String} {stmt : Simple} {rest : Code} {outcome : Outcome} :
      (∀ value, stmt ≠ .ret value) → Path (stmt.after assigned) rest outcome →
      Path assigned (.simple stmt rest) outcome
  | condition {assigned : Set String} {header : Header} {body rest : Code} {x : String} :
      x ∈ header.cond.reads → x ∉ assigned →
      Path assigned (.block header body rest) (.unassigned x)
  | skip {assigned : Set String} {header : Header} {body rest : Code} {outcome : Outcome} :
      Path assigned rest outcome → Path assigned (.block header body rest) outcome
  | leave {assigned : Set String} {header : Header} {body rest : Code} {outcome : Outcome} :
      Path assigned body outcome → (∀ assigned', outcome ≠ .falls assigned') →
      Path assigned (.block header body rest) outcome
  | ifThen {assigned assigned' : Set String} {cond : Expr} {body rest : Code} {outcome : Outcome} :
      Path assigned body (.falls assigned') → Path assigned' rest outcome →
      Path assigned (.block (.ifThen cond) body rest) outcome
  | whileDo {assigned assigned' : Set String} {cond : Expr} {body rest : Code}
      {outcome : Outcome} :
      Path assigned body (.falls assigned') →
      Path assigned' (.block (.whileDo cond) body rest) outcome →
      Path assigned (.block (.whileDo cond) body rest) outcome

/-! ## Definite assignment -/

namespace Code

/-- The variables that every path behind the statements has assigned. -/
def assigned : Code → Set String
  | nil => ∅
  | simple stmt rest => {x | x ∈ stmt.writes} ∪ rest.assigned
  | block _ _ rest => rest.assigned

/-- Where some variables are assigned, every variable that is read is one of them or is assigned by
a statement before, where what a block assigns only counts in the block. -/
def DefinitelyAssigned (pre : Set String) : Code → Prop
  | nil => True
  | simple stmt rest =>
    (∀ x ∈ stmt.reads, x ∈ pre) ∧ rest.DefinitelyAssigned (stmt.after pre)
  | block header body rest =>
    (∀ x ∈ header.cond.reads, x ∈ pre) ∧ body.DefinitelyAssigned pre ∧ rest.DefinitelyAssigned pre

attribute [grind =] assigned DefinitelyAssigned

@[simp]
theorem assigned_append (first second : Code) :
    (first ++ second).assigned = first.assigned ∪ second.assigned := by
  induction first with
  | nil => simp [assigned]
  | simple stmt rest ih => rw [simple_append, assigned, ih, assigned, Set.union_assoc]
  | block header body rest _ ih => rw [block_append, assigned, ih, assigned]

theorem definitelyAssigned_append {pre : Set String} {first second : Code} :
    (first ++ second).DefinitelyAssigned pre ↔
      first.DefinitelyAssigned pre ∧ second.DefinitelyAssigned (pre ∪ first.assigned) := by
  induction first generalizing pre with
  | nil => simp [DefinitelyAssigned, assigned]
  | simple stmt rest ih =>
    rw [simple_append, DefinitelyAssigned, ih, DefinitelyAssigned, assigned, Simple.after,
      Set.union_assoc, and_assoc]
  | block header body rest _ ih =>
    rw [block_append, DefinitelyAssigned, ih, DefinitelyAssigned, assigned, and_assoc, and_assoc]

theorem DefinitelyAssigned.mono {pre pre' : Set String} {code : Code}
    (h : code.DefinitelyAssigned pre) (hpre : pre ⊆ pre') : code.DefinitelyAssigned pre' := by
  induction code generalizing pre pre' with
  | nil => trivial
  | simple stmt rest ih =>
    exact ⟨fun x hx ↦ hpre (h.1 x hx), ih h.2 (Set.union_subset_union_left _ hpre)⟩
  | block header body rest ihbody ih =>
    exact ⟨fun x hx ↦ hpre (h.1 x hx), ihbody h.2.1 hpre, ih h.2.2 hpre⟩

/-- Pieces that are definitely assigned by themselves. -/
theorem definitelyAssigned_concat {pre : Set String} {codes : List Code}
    (h : ∀ code ∈ codes, code.DefinitelyAssigned pre) :
    (concat codes).DefinitelyAssigned pre := by
  induction codes with
  | nil => trivial
  | cons code codes ih =>
    rw [List.forall_mem_cons] at h
    exact definitelyAssigned_append.mpr ⟨h.1, (ih h.2).mono Set.subset_union_left⟩

theorem mem_assigned_concat {codes : List Code} {x : String} :
    x ∈ (concat codes).assigned ↔ ∃ code ∈ codes, x ∈ code.assigned := by
  induction codes with
  | nil => simp [concat, assigned]
  | cons code codes ih => simp [concat, ih]

end Code

/-- No path through definitely assigned code stops, and each one behind it has assigned what the
code assigns. -/
theorem Path.outcome {assigned : Set String} {code : Code} {outcome : Outcome}
    (h : Path assigned code outcome) {pre : Set String} (hpre : pre ⊆ assigned)
    (hcode : code.DefinitelyAssigned pre) :
    outcome = .returns ∨
      ∃ assigned', outcome = .falls assigned' ∧ assigned ∪ code.assigned ⊆ assigned' := by
  induction h generalizing pre with
  | nil assigned =>
    right
    exact ⟨assigned, rfl, by simp [Code.assigned]⟩
  | unassigned hx hx' => exact absurd (hpre (hcode.1 _ hx)) hx'
  | ret => exact .inl rfl
  | simple _ _ ih =>
    rcases ih (Set.union_subset_union_left _ hpre) hcode.2 with hreturns | ⟨assigned', heq, hsub⟩
    · exact .inl hreturns
    · right
      refine ⟨assigned', heq, ?_⟩
      rwa [Code.assigned, ← Set.union_assoc]
  | condition hx hx' => exact absurd (hpre (hcode.1 _ hx)) hx'
  | skip _ ih => exact ih hpre hcode.2.2
  | leave _ hfalls ih =>
    rcases ih hpre hcode.2.1 with hreturns | ⟨assigned', heq, -⟩
    · exact .inl hreturns
    · exact absurd heq (hfalls assigned')
  | ifThen _ _ ihbody ih =>
    rcases ihbody hpre hcode.2.1 with hreturns | ⟨assigned', heq, hsub⟩
    · cases hreturns
    · obtain rfl := Outcome.falls.inj heq
      have hassigned := Set.subset_union_left.trans hsub
      rcases ih (hpre.trans hassigned) hcode.2.2 with hreturns | ⟨final, heq, hsub'⟩
      · exact .inl hreturns
      · right
        exact ⟨final, heq, (Set.union_subset_union_left _ hassigned).trans hsub'⟩
  | whileDo _ _ ihbody ih =>
    rcases ihbody hpre hcode.2.1 with hreturns | ⟨assigned', heq, hsub⟩
    · cases hreturns
    · obtain rfl := Outcome.falls.inj heq
      have hassigned := Set.subset_union_left.trans hsub
      rcases ih (hpre.trans hassigned) hcode with hreturns | ⟨final, heq, hsub'⟩
      · exact .inl hreturns
      · right
        exact ⟨final, heq, (Set.union_subset_union_left _ hassigned).trans hsub'⟩

/-- No variable is read before it is assigned. -/
theorem Path.not_unassigned {assigned : Set String} {code : Code}
    (hcode : code.DefinitelyAssigned assigned) (x : String) :
    ¬ Path assigned code (.unassigned x) := by
  intro h
  rcases h.outcome le_rfl hcode with hreturns | ⟨assigned', hfalls, -⟩
  · cases hreturns
  · cases hfalls

/-! ## Output -/

section Output

variable {State : Type} (exec : State → Simple → State × List Char)
  (holds : State → Expr → Bool)

/-- What statements print on their way to the end of them, where every simple statement prints a
text and every condition holds or does not hold. -/
inductive Prints : State → Code → State → List Char → Prop where
  | nil (s : State) : Prints s .nil s []
  | simple {s s' : State} {stmt : Simple} {rest : Code} {text : List Char} :
      (∀ value, stmt ≠ .ret value) → Prints (exec s stmt).1 rest s' text →
      Prints s (.simple stmt rest) s' ((exec s stmt).2 ++ text)
  | skip {s s' : State} {header : Header} {body rest : Code} {text : List Char} :
      holds s header.cond = false → Prints s rest s' text →
      Prints s (.block header body rest) s' text
  | ifThen {s s₁ s' : State} {cond : Expr} {body rest : Code} {inner text : List Char} :
      holds s cond = true → Prints s body s₁ inner → Prints s₁ rest s' text →
      Prints s (.block (.ifThen cond) body rest) s' (inner ++ text)
  | whileDo {s s₁ s' : State} {cond : Expr} {body rest : Code} {inner text : List Char} :
      holds s cond = true → Prints s body s₁ inner →
      Prints s₁ (.block (.whileDo cond) body rest) s' text →
      Prints s (.block (.whileDo cond) body rest) s' (inner ++ text)

variable {exec holds}

/-- A statement alone. -/
theorem Prints.text_simple {s s' : State} {stmt : Simple} {text : List Char}
    (h : Prints exec holds s (.simple stmt .nil) s' text) : text = (exec s stmt).2 := by
  cases h with
  | simple _ hrest =>
    cases hrest
    exact List.append_nil _

/-- One list of statements after another. -/
theorem Prints.of_append {s s' : State} {first second : Code} {text : List Char}
    (h : Prints exec holds s (first ++ second) s' text) :
    ∃ s₁ before after, Prints exec holds s first s₁ before ∧
      Prints exec holds s₁ second s' after ∧ text = before ++ after := by
  generalize hcode : first ++ second = code at h
  induction h generalizing first with
  | nil s =>
    cases first with
    | nil =>
      obtain rfl : second = .nil := hcode
      exact ⟨s, [], [], .nil s, .nil s, rfl⟩
    | simple stmt rest => cases hcode
    | block header body rest => cases hcode
  | @simple s s' stmt rest text hret hrest ih =>
    cases first with
    | nil =>
      obtain rfl : second = .simple stmt rest := hcode
      exact ⟨s, [], _, .nil s, .simple hret hrest, rfl⟩
    | simple stmt' rest' =>
      obtain ⟨rfl, rfl⟩ := Code.simple.inj hcode
      obtain ⟨s₁, before, after, hfirst, hsecond, rfl⟩ := ih rfl
      exact ⟨s₁, _, after, .simple hret hfirst, hsecond, (List.append_assoc _ _ _).symm⟩
    | block header body rest => cases hcode
  | @skip s s' header body rest text hcond hrest ih =>
    cases first with
    | nil =>
      obtain rfl : second = .block header body rest := hcode
      exact ⟨s, [], _, .nil s, .skip hcond hrest, rfl⟩
    | simple stmt' rest' => cases hcode
    | block header' body' rest' =>
      obtain ⟨rfl, rfl, rfl⟩ := Code.block.inj hcode
      obtain ⟨s₁, before, after, hfirst, hsecond, rfl⟩ := ih rfl
      exact ⟨s₁, before, after, .skip hcond hfirst, hsecond, rfl⟩
  | @ifThen s s₁ s' cond body rest inner text hcond hbody hrest _ ih =>
    cases first with
    | nil =>
      obtain rfl : second = .block (.ifThen cond) body rest := hcode
      exact ⟨s, [], _, .nil s, .ifThen hcond hbody hrest, rfl⟩
    | simple stmt' rest' => cases hcode
    | block header' body' rest' =>
      obtain ⟨rfl, rfl, rfl⟩ := Code.block.inj hcode
      obtain ⟨s₂, before, after, hfirst, hsecond, rfl⟩ := ih rfl
      exact ⟨s₂, _, after, .ifThen hcond hbody hfirst, hsecond, (List.append_assoc _ _ _).symm⟩
  | @whileDo s s₁ s' cond body rest inner text hcond hbody hrest _ ih =>
    cases first with
    | nil =>
      obtain rfl : second = .block (.whileDo cond) body rest := hcode
      exact ⟨s, [], _, .nil s, .whileDo hcond hbody hrest, rfl⟩
    | simple stmt' rest' => cases hcode
    | block header' body' rest' =>
      obtain ⟨rfl, rfl, rfl⟩ := Code.block.inj hcode
      have hloop : .block (.whileDo cond) body' rest' ++ second =
          Code.block (.whileDo cond) body' (rest' ++ second) := rfl
      obtain ⟨s₂, before, after, hfirst, hsecond, rfl⟩ := ih hloop
      exact ⟨s₂, _, after, .whileDo hcond hbody hfirst, hsecond, (List.append_assoc _ _ _).symm⟩

end Output

end PythonCode
