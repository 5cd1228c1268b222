import DeclarativeMlir.Library.Interning
import DeclarativeMlir.Spec.AttrConstraints

/-!
# Uniquing of constraints with lists

A constraint with a list of members is stored under its kind and the sorted list of its members.
Lists with the same members in any order have one storage, and other lists have another one.
-/

namespace DeclarativeMlir.Spec

/-! ## Sorted lists -/

/-- An immutable list that is sorted on creation. -/
structure ImmutableSortedList {α : Type} (address : α → ℕ) where
  elements : List α
  sorted : elements.Pairwise fun a b ↦ address a ≤ address b

section ImmutableSortedList

variable {α : Type} {address : α → ℕ}

/-- `std::equal`, of ranges from the one's begin to its end -/
def stdEqual [DecidableEq α] : List α → List α → Bool
  | a :: as, b :: bs => a == b && stdEqual as bs
  | [], _ => true
  | _ :: _, [] => false

/-- `operator==` -/
def ImmutableSortedList.equal [DecidableEq α] (list other : ImmutableSortedList address) : Bool :=
  if list.elements.length ≠ other.elements.length then false
  else stdEqual list.elements other.elements

def getSortedListOf (address : α → ℕ) (arr : List α) : ImmutableSortedList address :=
  ⟨Interning.sortBy address arr, Interning.sortBy_pairwise address arr⟩

theorem stdEqual_iff [DecidableEq α] : ∀ {as bs : List α}, as.length = bs.length →
    (stdEqual as bs = true ↔ as = bs)
  | [], [], _ => by simp [stdEqual]
  | a :: as, b :: bs, hlength => by
    have hlength' : as.length = bs.length := by simpa using hlength
    rw [stdEqual, Bool.and_eq_true, beq_iff_eq, stdEqual_iff hlength', List.cons.injEq]

theorem ImmutableSortedList.ext_iff {list other : ImmutableSortedList address} :
    list = other ↔ list.elements = other.elements := by
  cases list
  cases other
  simp

theorem ImmutableSortedList.equal_iff [DecidableEq α] (list other : ImmutableSortedList address) :
    list.equal other = true ↔ list = other := by
  rw [ImmutableSortedList.ext_iff, ImmutableSortedList.equal]
  split
  next hlength =>
    have hne : list.elements ≠ other.elements := fun heq ↦ hlength (congrArg List.length heq)
    simp [hne]
  next hlength => exact stdEqual_iff (not_not.mp hlength)

/-- Different members of the two lists have different addresses. -/
def DistinctAddresses (address : α → ℕ) (arr arr' : List α) : Prop :=
  ∀ a ∈ arr, ∀ b ∈ arr', address a = address b → a = b

theorem getSortedListOf_eq_iff {arr arr' : List α} (h : DistinctAddresses address arr arr') :
    getSortedListOf address arr = getSortedListOf address arr' ↔ arr.Perm arr' := by
  rw [ImmutableSortedList.ext_iff]
  exact Interning.sortBy_eq_iff address h

end ImmutableSortedList

/-! ## Storage -/

/-- The hash functions, of which nothing is known. -/
structure Hashing (α : Type) where
  hashValue : α → ℕ
  /-- `llvm::hash_combine_range`, of the hashes of the elements -/
  hashCombineRange : List ℕ → ℕ
  /-- the hash of a kind and a key -/
  hashCombine : ℕ → ℕ → ℕ

section Storage

variable {α : Type} [DecidableEq α] {address : α → ℕ} (hashing : Hashing α)

/-- `ImmutableSortedList::hash` -/
def ImmutableSortedList.hash (list : ImmutableSortedList address) : ℕ :=
  hashing.hashCombineRange (list.elements.map hashing.hashValue)

/-- A kind with the key of a storage. -/
abbrev StorageKey {α : Type} (address : α → ℕ) : Type := ℕ × ImmutableSortedList address

def StorageKey.hashKey (key : StorageKey address) : ℕ :=
  hashing.hashCombine key.1 (key.2.hash hashing)

def StorageKey.equal (key key' : StorageKey address) : Bool :=
  key.1 == key'.1 && key.2.equal key'.2

theorem StorageKey.equal_iff (key key' : StorageKey address) :
    key.equal key' = true ↔ key = key' := by
  rw [StorageKey.equal, Bool.and_eq_true, beq_iff_eq, ImmutableSortedList.equal_iff,
    Prod.ext_iff]

/-- `Base::getChecked`, for a constraint with a list: the index of its storage, and the storages
there are then -/
def getCheckedList (verifyList : List α → Bool) (storages : List (StorageKey address)) (kind : ℕ)
    (arr : List α) : Option (ℕ × List (StorageKey address)) :=
  let key := getSortedListOf address arr
  if verifyList key.elements then
    some (Interning.intern (StorageKey.hashKey hashing) StorageKey.equal storages (kind, key))
  else none

/-- Two lists have equal keys exactly if one is a permutation of the other, equal keys have equal
hashes, and of any two kinds, constraints with the lists are stored, and have the same storage
exactly if the kinds are equal and one list is a permutation of the other. -/
structure Uniqued (address : α → ℕ) (verifyList : List α → Bool) (arr arr' : List α) : Prop where
  equal_iff : (getSortedListOf address arr).equal (getSortedListOf address arr') = true ↔
    arr.Perm arr'
  hash_eq : (getSortedListOf address arr).equal (getSortedListOf address arr') = true →
    (getSortedListOf address arr).hash hashing = (getSortedListOf address arr').hash hashing
  storage_eq_iff (storages : List (StorageKey address)) (kind kind' : ℕ)
    (keys : List (StorageKey address)) : ∃ storage storages' storage' storages'',
      getCheckedList hashing verifyList storages kind arr = some (storage, storages') ∧
      getCheckedList hashing verifyList (Interning.internAll (StorageKey.hashKey hashing)
        StorageKey.equal storages' keys) kind' arr' = some (storage', storages'') ∧
      (storage' = storage ↔ kind = kind' ∧ arr.Perm arr')

theorem getCheckedList_of_verifyList {verifyList : List α → Bool}
    (hperm : ∀ arr arr' : List α, arr.Perm arr' → verifyList arr = verifyList arr')
    {arr : List α} (harr : verifyList arr = true) (storages : List (StorageKey address))
    (kind : ℕ) : getCheckedList hashing verifyList storages kind arr =
      some (Interning.intern (StorageKey.hashKey hashing) StorageKey.equal storages
        (kind, getSortedListOf address arr)) := by
  have hsorted : verifyList (getSortedListOf address arr).elements = true :=
    (hperm _ _ (Interning.sortBy_perm address arr)).trans harr
  rw [getCheckedList, if_pos hsorted]

/-- Uniquing forgets the order of a list, where the check of the list does not depend on it. -/
theorem Uniqued.of_distinctAddresses {verifyList : List α → Bool}
    (hperm : ∀ arr arr' : List α, arr.Perm arr' → verifyList arr = verifyList arr')
    {arr arr' : List α} (harr : verifyList arr = true) (harr' : verifyList arr' = true)
    (haddress : DistinctAddresses address arr arr') :
    Uniqued hashing address verifyList arr arr' where
  equal_iff := by rw [ImmutableSortedList.equal_iff, getSortedListOf_eq_iff haddress]
  hash_eq hequal := by rw [(ImmutableSortedList.equal_iff _ _).mp hequal]
  storage_eq_iff storages kind kind' keys := by
    have hkeys : (kind, getSortedListOf address arr) = (kind', getSortedListOf address arr') ↔
        kind = kind' ∧ arr.Perm arr' := by
      rw [Prod.mk.injEq, getSortedListOf_eq_iff haddress]
    have hsame := Interning.intern_eq_iff (StorageKey.hashKey hashing) StorageKey.equal_iff storages
      keys (kind, getSortedListOf address arr) (kind', getSortedListOf address arr')
    have hfirst := getCheckedList_of_verifyList hashing hperm harr storages kind
    have hsecond := getCheckedList_of_verifyList hashing hperm harr'
      (Interning.internAll (StorageKey.hashKey hashing) StorageKey.equal
        (Interning.intern (StorageKey.hashKey hashing) StorageKey.equal storages
          (kind, getSortedListOf address arr)).2 keys) kind'
    exact ⟨_, (Interning.intern (StorageKey.hashKey hashing) StorageKey.equal storages
      (kind, getSortedListOf address arr)).2, _, _, hfirst, hsecond, hsame.trans hkeys⟩

end Storage

/-! ## The lists of the spec dialect -/

theorem verifyTypeList_perm (types types' : List Ty) (hperm : types.Perm types') :
    verifyTypeList types = verifyTypeList types' := by
  simp only [verifyTypeList, hperm.isEmpty_eq, hperm.nodup_iff]

theorem verifyAttrList_perm (attrs attrs' : List Attribute) (hperm : attrs.Perm attrs') :
    verifyAttrList attrs = verifyAttrList attrs' := by
  simp only [verifyAttrList, hperm.isEmpty_eq, hperm.nodup_iff]

theorem verifyWidthList_perm (verifyWidth : ℕ → Bool) (widths widths' : List ℕ)
    (hperm : widths.Perm widths') :
    verifyWidthList widths verifyWidth = verifyWidthList widths' verifyWidth := by
  simp only [verifyWidthList, hperm.isEmpty_eq, hperm.nodup_iff, hperm.all_eq]


/-- The members that constraints hold are the keys of their storages. -/
theorem getSorted_eq_iff (ctx : Context) :
    (∀ types types' : List Ty, DistinctAddresses ctx.typeAddress types types' →
      (getSortedTypes ctx types = getSortedTypes ctx types' ↔ types.Perm types')) ∧
    (∀ attrs attrs' : List Attribute, DistinctAddresses ctx.attrAddress attrs attrs' →
      (getSortedAttrs ctx attrs = getSortedAttrs ctx attrs' ↔ attrs.Perm attrs')) ∧
    ∀ widths widths' : List ℕ, getSortedWidths widths = getSortedWidths widths' ↔
      widths.Perm widths' :=
  ⟨fun _ _ haddress ↦ Interning.sortBy_eq_iff ctx.typeAddress haddress,
    fun _ _ haddress ↦ Interning.sortBy_eq_iff ctx.attrAddress haddress,
    fun _ _ ↦ Interning.sortBy_eq_iff id fun _ _ _ _ heq ↦ heq⟩

/-- The lists of types, of attributes and of widths that the constructors of constraints accept
are uniqued, where no two members have one address. -/
theorem lists_uniqued (typeAddress : Ty → ℕ) (attrAddress : Attribute → ℕ)
    (typeHashing : Hashing Ty) (attrHashing : Hashing Attribute) (widthHashing : Hashing ℕ) :
    (∀ types types' : List Ty, verifyTypeList types = true → verifyTypeList types' = true →
      DistinctAddresses typeAddress types types' →
      Uniqued typeHashing typeAddress verifyTypeList types types') ∧
    (∀ attrs attrs' : List Attribute, verifyAttrList attrs = true → verifyAttrList attrs' = true →
      DistinctAddresses attrAddress attrs attrs' →
      Uniqued attrHashing attrAddress verifyAttrList attrs attrs') ∧
    ∀ (verifyWidth : ℕ → Bool) (widths widths' : List ℕ),
      verifyWidthList widths verifyWidth = true → verifyWidthList widths' verifyWidth = true →
      Uniqued widthHashing id (verifyWidthList · verifyWidth) widths widths' := by
  refine ⟨?_, ?_, ?_⟩
  · intro types types' htypes htypes' haddress
    exact Uniqued.of_distinctAddresses typeHashing verifyTypeList_perm htypes htypes' haddress
  · intro attrs attrs' hattrs hattrs' haddress
    exact Uniqued.of_distinctAddresses attrHashing verifyAttrList_perm hattrs hattrs' haddress
  · intro verifyWidth widths widths' hwidths hwidths'
    have haddress : DistinctAddresses id widths widths' := fun _ _ _ _ heq ↦ heq
    exact Uniqued.of_distinctAddresses widthHashing (verifyWidthList_perm verifyWidth) hwidths
      hwidths' haddress


theorem lists_uniqued_swap :
    Uniqued ⟨fun _ ↦ 0, List.sum, Nat.add⟩ (fun ty ↦ if ty = .leaf .any then 8 else 16)
      verifyTypeList [.leaf .any, .leaf .anyInteger] [.leaf .anyInteger, .leaf .any] ∧
    Uniqued ⟨fun _ ↦ 0, List.sum, Nat.add⟩ (fun attr ↦ if attr = .leaf .any then 8 else 16)
      verifyAttrList [.leaf .any] [.leaf .bool, .leaf .any] ∧
    Uniqued ⟨id, List.sum, Nat.add⟩ id (verifyWidthList · verifyIntWidth) [8, 32] [32, 8] := by
  have huniqued := lists_uniqued (fun ty ↦ if ty = .leaf .any then 8 else 16)
    (fun attr ↦ if attr = .leaf .any then 8 else 16) ⟨fun _ ↦ 0, List.sum, Nat.add⟩
    ⟨fun _ ↦ 0, List.sum, Nat.add⟩ ⟨id, List.sum, Nat.add⟩
  refine ⟨huniqued.1 _ _ (by decide) (by decide) ?_, huniqued.2.1 _ _ (by decide) (by decide) ?_,
    huniqued.2.2 verifyIntWidth _ _ (by decide) (by decide)⟩
  · unfold DistinctAddresses
    decide
  · unfold DistinctAddresses
    decide

end DeclarativeMlir.Spec
