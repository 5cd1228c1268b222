import Mathlib.Data.List.Basic

/-!
# Generic printing

`genericPrint` prints Python objects of any kind. A list that is neither a list of values nor a
list of types is printed element by element, where the function calls itself on the list.
-/

namespace DeclarativeMlir.Python

/-- The kinds of objects that are printed as they are, with a text. -/
inductive LeafKind where
  | value | type | attribute | bool | block | str
  deriving DecidableEq, Repr

inductive PyObject where
  | leaf (kind : LeafKind) (text : String)
  | list (vals : List PyObject)
  | iterator (vals : List PyObject)

/-- What is printed. -/
inductive Printed where
  | leaf (kind : LeafKind) (text : String)
  | comma
  deriving DecidableEq, Repr

namespace PyObject

def isLeafOf (kind : LeafKind) : PyObject → Bool
  | leaf kind' _ => kind' == kind
  | _ => false

/-- `is_list_of` -/
def is_list_of (kind : LeafKind) (vals : List PyObject) : Bool := vals.all (isLeafOf kind)

/-- The call of the printer for an element of a list of values or of types. -/
def printLeaf : PyObject → List Printed
  | leaf kind text => [.leaf kind text]
  | _ => []

/-- `llvm::interleaveComma`, of what is printed for each element -/
def interleaveComma (printed : List (List Printed)) : List Printed :=
  (printed.intersperse [.comma]).flatten

/-- The object that is printed for an element of a mixed list is the list. -/
def genericPrint : ℕ → PyObject → Option (List Printed)
  | 0, _ => none
  | fuel + 1, obj =>
    match obj with
    | leaf kind text => some [.leaf kind text]
    | list vals =>
      if is_list_of .value vals then some (interleaveComma (vals.map printLeaf))
      else if is_list_of .type vals then some (interleaveComma (vals.map printLeaf))
      else (vals.mapM fun _ ↦ genericPrint fuel obj).map interleaveComma
    | iterator vals => genericPrint fuel (list vals)

mutual

/-- Every leaf once and in order, with a comma between the elements of each list. -/
def leaves : PyObject → List Printed
  | leaf kind text => [.leaf kind text]
  | list vals => interleaveComma (leavesOf vals)
  | iterator vals => interleaveComma (leavesOf vals)

def leavesOf : List PyObject → List (List Printed)
  | [] => []
  | val :: vals => val.leaves :: leavesOf vals

end

/-- The object is printed, and as it should be. -/
def Faithful (obj : PyObject) : Prop := ∃ fuel, obj.genericPrint fuel = some obj.leaves

/-- The elements of the object, if it has elements. -/
def elements : PyObject → List PyObject
  | leaf _ _ => []
  | list vals => vals
  | iterator vals => vals

/-- A list or an iterator has values alone or types alone. -/
def Uniform (obj : PyObject) : Prop :=
  is_list_of .value obj.elements ∨ is_list_of .type obj.elements

instance (obj : PyObject) : Decidable obj.Uniform := inferInstanceAs (Decidable (_ ∨ _))

theorem leavesOf_eq_map (vals : List PyObject) : leavesOf vals = vals.map leaves := by
  induction vals with
  | nil => rfl
  | cons val vals ih => rw [leavesOf, List.map_cons, ih]

theorem leaves_list (vals : List PyObject) :
    (list vals).leaves = interleaveComma (vals.map leaves) := by
  rw [leaves, leavesOf_eq_map]

theorem leaves_iterator (vals : List PyObject) : (iterator vals).leaves = (list vals).leaves := by
  rw [leaves, leaves]

theorem printLeaf_eq_leaves {kind : LeafKind} {obj : PyObject} (hobj : obj.isLeafOf kind) :
    obj.printLeaf = obj.leaves := by
  cases obj with
  | leaf kind' text => rw [printLeaf, leaves]
  | list vals => cases hobj
  | iterator vals => cases hobj

theorem map_printLeaf {kind : LeafKind} {vals : List PyObject} (hvals : is_list_of kind vals) :
    vals.map printLeaf = vals.map leaves :=
  List.map_congr_left fun _ hval ↦ printLeaf_eq_leaves (List.all_eq_true.mp hvals _ hval)

theorem genericPrint_list {vals : List PyObject} (huniform : (list vals).Uniform) (fuel : ℕ) :
    (list vals).genericPrint (fuel + 1) = some (list vals).leaves := by
  rw [genericPrint, leaves_list]
  rcases huniform with hvalues | htypes
  · have hvals : is_list_of .value vals := hvalues
    rw [if_pos hvals, map_printLeaf hvals]
  · have hvals : is_list_of .type vals := htypes
    rw [map_printLeaf hvals, if_pos hvals, ite_self]

/-- A mixed list is printed for each of its elements. -/
theorem genericPrint_mixed {vals : List PyObject} (hmixed : ¬ (list vals).Uniform) (fuel : ℕ) :
    (list vals).genericPrint fuel = none := by
  have hor := not_or.mp hmixed
  induction fuel with
  | zero => rfl
  | succ fuel ih =>
    cases vals with
    | nil => exact absurd rfl hor.1
    | cons val vals =>
      have hvalues : ¬ is_list_of .value (val :: vals) := hor.1
      have htypes : ¬ is_list_of .type (val :: vals) := hor.2
      rw [genericPrint, if_neg hvalues, if_neg htypes, List.mapM_cons, ih]
      rfl

/-- An object is printed as it should be if and only if it has no mixed list. -/
theorem genericPrint_faithful_iff (obj : PyObject) : obj.Faithful ↔ obj.Uniform := by
  cases obj with
  | leaf kind text => exact iff_of_true ⟨1, by rw [genericPrint, leaves]⟩ (.inl rfl)
  | list vals =>
    constructor
    · rintro ⟨fuel, hprint⟩
      by_contra hmixed
      rw [genericPrint_mixed hmixed] at hprint
      cases hprint
    · intro huniform
      exact ⟨1, genericPrint_list huniform 0⟩
  | iterator vals =>
    constructor
    · rintro ⟨fuel, hprint⟩
      by_contra hmixed
      cases fuel with
      | zero => cases hprint
      | succ fuel =>
        rw [genericPrint, genericPrint_mixed hmixed] at hprint
        cases hprint
    · intro huniform
      refine ⟨2, ?_⟩
      rw [genericPrint, genericPrint_list huniform, leaves_iterator]

/-- A list of a type and a string is printed forever. -/
theorem genericPrint_not_faithful : ¬ (list [leaf .type "i32", leaf .str "x"]).Faithful := by
  rintro ⟨fuel, hprint⟩
  rw [genericPrint_mixed (by decide)] at hprint
  cases hprint

end PyObject

end DeclarativeMlir.Python
