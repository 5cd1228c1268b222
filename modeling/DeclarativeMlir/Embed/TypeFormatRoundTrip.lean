import DeclarativeMlir.Embed.TypeFormat
import Mathlib.Data.List.Nodup

/-!
# Round trips of dynamic types

Which instances of a dynamic type are read back from what the generated printer writes. Every
accepted format binds each parameter once, so that the parser returns all values in their order. It
reads them back if no literal is a keyword, the argument of `dims` is a list of 64-bit integers, and
the lexer takes the printed pieces apart.
-/

namespace DeclarativeMlir.Embed

open TokenParsing

/-! ## Accepted formats -/

/-- The parameter that an element reads. -/
def FormatElement.bound : FormatElement → Option String
  | literal _ => none
  | parameter name => some name
  | dims name => some name

def boundNames (elements : List FormatElement) : List String :=
  elements.filterMap FormatElement.bound

/-- The elements bind parameters that are not seen yet, each once. -/
structure Binds (params : List String) (seen seen' : TypeFormat.SeenParameters)
    (names : List String) : Prop where
  mem : ∀ name ∈ names, name ∈ params
  nodup : names.Nodup
  fresh : ∀ name ∈ names, params.idxOf name ∉ seen
  seen : ∀ idx, idx ∈ seen' ↔ idx ∈ seen ∨ ∃ name ∈ names, params.idxOf name = idx

theorem Binds.nil (params : List String) (seen : TypeFormat.SeenParameters) :
    Binds params seen seen [] := by
  constructor <;> simp

theorem parseVariable_ok {params : List String} {seen seen' : TypeFormat.SeenParameters}
    {name : String} (h : TypeFormat.parseVariable params seen name = .ok seen') :
    name ∈ params ∧ params.idxOf name ∉ seen ∧ seen' = params.idxOf name :: seen := by
  unfold TypeFormat.parseVariable at h
  split_ifs at h with hmem hseen
  exact ⟨hmem, hseen, (Except.ok.inj h).symm⟩

theorem Binds.cons {params : List String} {seen mid seen' : TypeFormat.SeenParameters}
    {name : String} {names : List String}
    (hname : TypeFormat.parseVariable params seen name = .ok mid)
    (h : Binds params mid seen' names) : Binds params seen seen' (name :: names) := by
  obtain ⟨hmem, hfresh, rfl⟩ := parseVariable_ok hname
  constructor
  · rw [List.forall_mem_cons]
    exact ⟨hmem, h.mem⟩
  · rw [List.nodup_cons]
    refine ⟨fun hagain ↦ ?_, h.nodup⟩
    exact h.fresh name hagain (List.mem_cons_self ..)
  · rw [List.forall_mem_cons]
    refine ⟨hfresh, fun other hother hseen ↦ ?_⟩
    exact h.fresh other hother (List.mem_cons_of_mem _ hseen)
  · intro idx
    rw [h.seen, List.mem_cons, List.exists_mem_cons_iff, @eq_comm _ idx]
    tauto

theorem parseElements_ok {params : List String} {tokens : List FormatToken}
    {seen seen' : TypeFormat.SeenParameters} {elements : List FormatElement}
    (h : TypeFormat.parseElements params seen tokens = .ok (elements, seen')) :
    Binds params seen seen' (boundNames elements) := by
  fun_induction TypeFormat.parseElements params seen tokens generalizing elements with
  | case1 seen =>
    obtain ⟨rfl, rfl⟩ := Prod.mk.inj (Except.ok.inj h)
    exact Binds.nil params seen
  | case2 seen text rest hvalid ih =>
    obtain ⟨⟨tail, seen''⟩, htail, h⟩ := Spec.bind_eq_ok.mp h
    obtain ⟨rfl, rfl⟩ := Prod.mk.inj (Except.ok.inj h)
    have hbinds := ih htail
    exact hbinds
  | case3 => cases h
  | case4 seen name rest ih =>
    obtain ⟨mid, hname, h⟩ := Spec.bind_eq_ok.mp h
    obtain ⟨⟨tail, seen''⟩, htail, h⟩ := Spec.bind_eq_ok.mp h
    obtain ⟨rfl, rfl⟩ := Prod.mk.inj (Except.ok.inj h)
    exact Binds.cons hname (ih mid htail)
  | case5 seen name rest ih =>
    obtain ⟨mid, hname, h⟩ := Spec.bind_eq_ok.mp h
    obtain ⟨⟨tail, seen''⟩, htail, h⟩ := Spec.bind_eq_ok.mp h
    obtain ⟨rfl, rfl⟩ := Prod.mk.inj (Except.ok.inj h)
    exact Binds.cons hname (ih mid htail)
  | case6 => cases h
  | case7 => cases h

/-- An accepted format binds each parameter, and no two parameters have one name. -/
structure Accepted (params : List String) (elements : List FormatElement) : Prop where
  params_nodup : params.Nodup
  nodup : (boundNames elements).Nodup
  mem_iff : ∀ name, name ∈ boundNames elements ↔ name ∈ params

theorem parse_ok {params : List String} {tokens : List FormatToken} {elements : List FormatElement}
    (h : TypeFormat.parse params tokens = .ok elements) : Accepted params elements := by
  obtain ⟨⟨elements', seen⟩, helements, h⟩ := Spec.bind_eq_ok.mp h
  obtain ⟨_, hverify, h⟩ := Spec.bind_eq_ok.mp h
  obtain rfl := Except.ok.inj h
  have hbinds := parseElements_ok helements
  have hall : ∀ idx < params.length, ∃ name ∈ boundNames elements', params.idxOf name = idx := by
    intro idx hidx
    unfold TypeFormat.verifyParameters at hverify
    split at hverify
    · rename_i hnone
      rw [List.find?_eq_none] at hnone
      have hseen := hnone idx (List.mem_range.mpr hidx)
      simpa using (hbinds.seen idx).mp (by simpa using hseen)
    · cases hverify
  have hidxOf : ∀ idx (hidx : idx < params.length), params.idxOf params[idx] = idx ∧
      params[idx] ∈ boundNames elements' := by
    intro idx hidx
    obtain ⟨name, hname, rfl⟩ := hall idx hidx
    rw [List.getElem_idxOf]
    exact ⟨rfl, hname⟩
  refine ⟨?_, hbinds.nodup, fun name ↦ ⟨hbinds.mem name, fun hmem ↦ ?_⟩⟩
  · rw [List.nodup_iff_injective_get]
    intro i j hij
    have hi := (hidxOf i i.isLt).1
    have hj := (hidxOf j j.isLt).1
    simp only [List.get_eq_getElem] at hij
    rw [hij, hj] at hi
    exact Fin.ext hi.symm
  · obtain ⟨idx, hidx, rfl⟩ := List.getElem_of_mem hmem
    exact (hidxOf idx hidx).2

/-! ## Dimension lists -/

/-- How a 64-bit integer is printed as a dimension. -/
def printDim (value : BitVec 64) : Dim :=
  if value.toInt = -1 then .dynamic else .size value.toNat

theorem getAttr_printDim (value : BitVec 64) : (printDim value).getAttr = some (.i64 value) := by
  unfold printDim
  split_ifs with hdynamic
  · have hvalue : value = -1 := BitVec.eq_of_toInt_eq (by rw [hdynamic]; rfl)
    rw [hvalue]
    rfl
  · simp only [Dim.getAttr, value.isLt, if_true, BitVec.ofNat_toNat, BitVec.setWidth_eq]

theorem mapM_getDim (dims : List (BitVec 64)) :
    (dims.map ParamAttr.i64).mapM ParamAttr.getDim = some (dims.map printDim) := by
  induction dims with
  | nil => rfl
  | cons value dims ih =>
    rw [List.map_cons, List.mapM_cons, ih]
    rfl

theorem mapM_getAttr (dims : List (BitVec 64)) :
    (dims.map printDim).mapM Dim.getAttr = some (dims.map ParamAttr.i64) := by
  induction dims with
  | nil => rfl
  | cons value dims ih =>
    rw [List.map_cons, List.mapM_cons, ih, getAttr_printDim]
    rfl

/-- Dimensions are parsed to 64-bit integers. -/
theorem exists_i64_of_mapM_getAttr {dims : List Dim} {attrs : List ParamAttr}
    (h : dims.mapM Dim.getAttr = some attrs) :
    ∃ values : List (BitVec 64), attrs = values.map .i64 := by
  induction dims generalizing attrs with
  | nil =>
    obtain rfl := Option.some.inj h
    exact ⟨[], rfl⟩
  | cons dim dims ih =>
    rw [List.mapM_cons, Option.bind_eq_bind, Option.bind_eq_some_iff] at h
    obtain ⟨attr, hattr, h⟩ := h
    rw [Option.bind_eq_bind, Option.bind_eq_some_iff] at h
    obtain ⟨attrs', hattrs, h⟩ := h
    obtain rfl := Option.some.inj h
    obtain ⟨values, rfl⟩ := ih hattrs
    cases dim with
    | dynamic =>
      obtain rfl := Option.some.inj hattr
      exact ⟨-1 :: values, rfl⟩
    | size value =>
      simp only [Dim.getAttr] at hattr
      split_ifs at hattr
      obtain rfl := Option.some.inj hattr
      exact ⟨BitVec.ofNat 64 value :: values, rfl⟩

/-! ## The lexer -/

/-- Pieces that are apart from one another are taken one by one. -/
theorem lex_eq_map_iff {text : AttrText} {chunks taken : List Chunk} :
    lex text chunks = taken.map .chunk ↔
      taken = chunks ∧ chunks.IsChain fun chunk next ↦ glued text chunk next = false := by
  induction chunks generalizing taken with
  | nil => cases taken <;> simp [lex]
  | cons chunk chunks ih =>
    cases chunks with
    | nil =>
      cases taken with
      | nil => simp [lex]
      | cons first taken =>
        simp only [lex, List.map_cons, List.cons.injEq, Lexeme.chunk.injEq, List.nil_eq,
          List.map_eq_nil_iff, @eq_comm _ chunk]
        exact (and_iff_left (List.IsChain.singleton chunk)).symm
    | cons next chunks =>
      cases taken with
      | nil => simp [lex]
      | cons first taken =>
        rw [lex, List.map_cons, List.cons.injEq, ih, List.isChain_cons_cons, List.cons.injEq]
        cases glued text chunk next with
        | true => simp
        | false =>
          simp only [Bool.false_eq_true, if_false, Lexeme.chunk.injEq, true_and, @eq_comm _ chunk]
          exact and_assoc.symm

/-! ## Reading the printed pieces -/

section Elements

variable (text : AttrText) (params : List String) (values : List ParamAttr)

/-- The piece that is printed for an element if the argument of `dims` is a list of integers. -/
def piece : FormatElement → Option Chunk
  | .literal literal => some (literalChunk literal)
  | .parameter name => (getParameter params values name).map .attr
  | .dims name =>
    match getParameter params values name with
    | some (.array elements) => (elements.mapM ParamAttr.getDim).map .dims
    | _ => none

/-- What an element needs to be read back by itself. -/
def FormatElement.Readable : FormatElement → Prop
  | .literal word => isKeywordLiteral word = false
  | .parameter _ => True
  | .dims name => ∃ dims : List (BitVec 64), dims ≠ [] ∧
    getParameter params values name = some (.array (dims.map .i64))

/-- The env that the generated parser should assign. -/
def assigned (names : List String) : List (String × ParamAttr) :=
  names.filterMap fun name ↦ (getParameter params values name).map fun attr ↦ (name, attr)

variable {params values}

theorem printElement_of_readable {element : FormatElement}
    (h : element.Readable params values) :
    printElement params values element = (piece params values element).map ([·]) := by
  cases element with
  | literal literal => rfl
  | parameter name => simp [printElement, piece, Function.comp_def]
  | dims name =>
    obtain ⟨dims, hne, hget⟩ := h
    obtain ⟨first, dims, rfl⟩ := List.exists_cons_of_ne_nil hne
    simp only [printElement, piece, hget, Option.map_some, printDimensionListOrRaw, mapM_getDim]
    rfl

theorem reads_element {element : FormatElement} (h : element.Readable params values)
    (hget : ∀ name ∈ element.bound, (getParameter params values name).isSome = true) :
    ∃ chunk, piece params values element = some chunk ∧
      ∀ (elements : List FormatElement) (tokens rest : List Lexeme)
        (more : List (String × ParamAttr)),
        Reads (parseElements text elements) tokens more rest →
        Reads (parseElements text (element :: elements)) (.chunk chunk :: tokens)
          (assigned params values element.bound.toList ++ more) rest := by
  cases element with
  | literal literal =>
    have hkeyword : isKeywordLiteral literal = false := h
    refine ⟨.punct literal, by simp [piece, literalChunk, hkeyword], ?_⟩
    intro elements tokens rest more hmore
    have hliteral : Reads (parseLiteral literal) [.chunk (.punct literal)] () (tokens ++ rest) := by
      rw [parseLiteral, hkeyword]
      exact Reads.token (by simp) _
    exact Reads.bind_cons hliteral hmore
  | parameter name =>
    obtain ⟨attr, hattr⟩ := Option.isSome_iff_exists.mp (hget name rfl)
    refine ⟨.attr attr, by simp [piece, hattr], ?_⟩
    intro elements tokens rest more hmore
    have hassigned : assigned params values (FormatElement.parameter name).bound.toList =
        [(name, attr)] := by
      simp [assigned, FormatElement.bound, hattr]
    rw [hassigned]
    have hparse : Reads parseAttribute [.chunk (.attr attr)] attr (tokens ++ rest) := rfl
    apply Reads.bind_cons hparse
    exact Reads.bind_pure hmore (Reads.pure _ _)
  | dims name =>
    obtain ⟨dims, -, hdims⟩ := h
    refine ⟨.dims (dims.map printDim), by simp only [piece, hdims, mapM_getDim, Option.map_some], ?_⟩
    intro elements tokens rest more hmore
    have hassigned : assigned params values (FormatElement.dims name).bound.toList =
        [(name, .array (dims.map .i64))] := by
      simp [assigned, FormatElement.bound, hdims]
    have hlist : Reads (parseDimensionList text) [.chunk (.dims (dims.map printDim))]
        (.array (dims.map .i64)) (tokens ++ rest) := by
      simp only [Reads, StateT.run, parseDimensionList, List.cons_append, List.nil_append,
        mapM_getAttr, Option.map_some]
    rw [hassigned]
    apply Reads.bind_cons hlist
    exact Reads.bind_pure hmore (Reads.pure _ _)

theorem reads_elements {elements : List FormatElement}
    (h : ∀ element ∈ elements, element.Readable params values)
    (hget : ∀ name ∈ boundNames elements, (getParameter params values name).isSome = true)
    (rest : List Lexeme) :
    Reads (parseElements text elements)
      ((elements.filterMap (piece params values)).map .chunk)
      (assigned params values (boundNames elements)) rest := by
  induction elements with
  | nil => exact Reads.pure _ _
  | cons element elements ih =>
    rw [List.forall_mem_cons] at h
    have hbound : boundNames (element :: elements) =
        element.bound.toList ++ boundNames elements := by
      cases hbound : element.bound <;> simp [boundNames, hbound]
    rw [hbound, List.forall_mem_append] at hget
    obtain ⟨chunk, hpiece, hreads⟩ := reads_element text h.1 (by simpa using hget.1)
    have htail := hreads elements _ rest _ (ih h.2 hget.2)
    rw [hbound, assigned, List.filterMap_append, List.filterMap_cons_some hpiece]
    exact htail

theorem exists_piece {element : FormatElement} (h : element.Readable params values)
    (hget : ∀ name ∈ element.bound, (getParameter params values name).isSome = true) :
    ∃ chunk, piece params values element = some chunk := by
  cases element with
  | literal word => exact ⟨_, rfl⟩
  | parameter name =>
    obtain ⟨attr, hattr⟩ := Option.isSome_iff_exists.mp (hget name rfl)
    exact ⟨.attr attr, by simp [piece, hattr]⟩
  | dims name =>
    obtain ⟨dims, -, hdims⟩ := h
    exact ⟨.dims (dims.map printDim), by simp only [piece, hdims, mapM_getDim, Option.map_some]⟩

/-- The printed pieces of readable elements. -/
theorem mapM_printElement {elements : List FormatElement}
    (h : ∀ element ∈ elements, element.Readable params values)
    (hget : ∀ name ∈ boundNames elements, (getParameter params values name).isSome = true) :
    (elements.mapM (printElement params values)).map List.flatten =
      some (elements.filterMap (piece params values)) := by
  induction elements with
  | nil => rfl
  | cons element elements ih =>
    rw [List.forall_mem_cons] at h
    have hbound : boundNames (element :: elements) =
        element.bound.toList ++ boundNames elements := by
      cases hbound : element.bound <;> simp [boundNames, hbound]
    rw [hbound, List.forall_mem_append] at hget
    obtain ⟨chunk, hpiece⟩ := exists_piece h.1 (by simpa using hget.1)
    obtain ⟨pieces, hpieces, hflatten⟩ := Option.map_eq_some_iff.mp (ih h.2 hget.2)
    rw [List.mapM_cons, printElement_of_readable h.1, hpiece, hpieces,
      List.filterMap_cons_some hpiece, ← hflatten]
    rfl

/-! ## Values by name -/

theorem getParameter_cons_self (name : String) (params : List String) (value : ParamAttr)
    (values : List ParamAttr) :
    getParameter (name :: params) (value :: values) name = some value := by
  simp [getParameter]

theorem getParameter_cons_of_ne {name other : String} (h : other ≠ name) (params : List String)
    (value : ParamAttr) (values : List ParamAttr) :
    getParameter (name :: params) (value :: values) other = getParameter params values other := by
  rw [getParameter, List.zip_cons_cons, List.lookup_cons, beq_false_of_ne h]
  rfl

/-- The values in the order of their declaration. -/
theorem mapM_eq_some_iff (hnodup : params.Nodup) (hlength : params.length = values.length)
    {f : String → Option ParamAttr} :
    params.mapM f = some values ↔ ∀ name ∈ params, f name = getParameter params values name ∧
      (getParameter params values name).isSome = true := by
  induction params generalizing values with
  | nil =>
    obtain rfl := List.length_eq_zero_iff.mp hlength.symm
    simp
  | cons name params ih =>
    obtain ⟨value, values, rfl⟩ := List.exists_cons_of_length_eq_add_one hlength.symm
    rw [List.nodup_cons] at hnodup
    have htail : (∀ other ∈ params, f other = getParameter (name :: params) (value :: values) other ∧
        (getParameter (name :: params) (value :: values) other).isSome = true) ↔
        params.mapM f = some values := by
      rw [ih hnodup.2 (Nat.succ.inj hlength)]
      apply forall₂_congr
      intro other hother
      have hne : other ≠ name := fun heq ↦ hnodup.1 (heq ▸ hother)
      rw [getParameter_cons_of_ne hne]
    rw [List.forall_mem_cons, htail, getParameter_cons_self, List.mapM_cons]
    constructor
    · intro h
      obtain ⟨first, hfirst, h⟩ := Option.bind_eq_some_iff.mp h
      obtain ⟨more, hmore, h⟩ := Option.bind_eq_some_iff.mp h
      obtain ⟨rfl, rfl⟩ := List.cons.inj (Option.some.inj h)
      exact ⟨⟨hfirst, rfl⟩, hmore⟩
    · rintro ⟨⟨hfirst, -⟩, hmore⟩
      rw [hfirst, hmore]
      rfl

theorem lookup_assigned {names : List String} {name : String} (hmem : name ∈ names) :
    (assigned params values names).lookup name = getParameter params values name := by
  induction names with
  | nil => cases hmem
  | cons first names ih =>
    by_cases hname : name = first
    · subst hname
      cases hget : getParameter params values name with
      | some attr => simp [assigned, hget]
      | none =>
        have hnone : ∀ entry ∈ assigned params values (name :: names), entry.1 ≠ name := by
          intro entry hentry hname
          obtain ⟨other, -, hother⟩ := List.mem_filterMap.mp hentry
          obtain ⟨attr, hattr, rfl⟩ := Option.map_eq_some_iff.mp hother
          rw [← hname] at hget
          simp [hget] at hattr
        rw [List.lookup_eq_none_iff]
        intro entry hentry
        simpa using (hnone entry hentry).symm
    · have hmem' := (List.mem_cons.mp hmem).resolve_left hname
      rw [← ih hmem']
      cases hfirst : getParameter params values first with
      | none => simp [assigned, hfirst]
      | some attr =>
        have hcons : assigned params values (first :: names) =
            (first, attr) :: assigned params values names := by
          simp [assigned, hfirst]
        rw [hcons, List.lookup_cons, beq_false_of_ne hname]

end Elements

/-! ## What the generated parser takes -/

/-- A run of the generated parser took pieces that are no words, and assigned all env. -/
structure Ran (elements : List FormatElement) (input rest : List Lexeme)
    (out : List (String × ParamAttr)) : Prop where
  literals : ∀ word, .literal word ∈ elements → isKeywordLiteral word = false
  taken : ∃ taken : List Chunk, input = taken.map .chunk ++ rest ∧
    ∀ chunk ∈ taken, ∀ word, chunk ≠ .word word
  names : out.map Prod.fst = boundNames elements
  dims : ∀ name, .dims name ∈ elements →
    ∃ dims : List (BitVec 64), (name, .array (dims.map .i64)) ∈ out

theorem run_parseLiteral {word : String} {input rest : List Lexeme}
    (h : (parseLiteral word).run input = some ((), rest)) :
    isKeywordLiteral word = false ∧ input = .chunk (.punct word) :: rest := by
  unfold parseLiteral at h
  split_ifs at h with hkeyword
  · cases h
  · refine ⟨by simpa using hkeyword, ?_⟩
    match input with
    | .chunk (.punct text) :: input =>
      simp only [token, StateT.run, Option.map_eq_some_iff, Prod.mk.injEq, true_and,
        Option.ite_none_right_eq_some] at h
      obtain ⟨_, ⟨rfl, -⟩, rfl⟩ := h
      rfl
    | [] | .error :: _ | .chunk (.word _) :: _ | .chunk (.attr _) :: _ | .chunk (.dims _) :: _ =>
      cases h

theorem run_parseAttribute {input rest : List Lexeme} {attr : ParamAttr}
    (h : parseAttribute.run input = some (attr, rest)) : input = .chunk (.attr attr) :: rest := by
  match input with
  | .chunk (.attr attr') :: input =>
    obtain ⟨rfl, rfl⟩ := Prod.mk.inj (Option.some.inj h)
    rfl
  | [] | .error :: _ | .chunk (.word _) :: _ | .chunk (.punct _) :: _ | .chunk (.dims _) :: _ =>
    cases h

theorem run_parseDimensionList {text : AttrText} {input rest : List Lexeme} {attr : ParamAttr}
    (h : (parseDimensionList text).run input = some (attr, rest)) :
    ∃ dims : List (BitVec 64), attr = .array (dims.map .i64) ∧
      (input = rest ∨ ∃ printed, input = .chunk (.dims printed) :: rest) := by
  match input with
  | .chunk (.dims printed) :: input =>
    obtain ⟨attrs, hattrs, heq⟩ := Option.map_eq_some_iff.mp h
    obtain ⟨rfl, rfl⟩ := Prod.mk.inj heq
    obtain ⟨dims, rfl⟩ := exists_i64_of_mapM_getAttr hattrs
    exact ⟨dims, rfl, .inr ⟨printed, rfl⟩⟩
  | .chunk (.attr attr') :: input =>
    simp only [StateT.run, parseDimensionList] at h
    split_ifs at h
    obtain ⟨rfl, rfl⟩ := Prod.mk.inj (Option.some.inj h)
    exact ⟨[], rfl, .inl rfl⟩
  | [] | .error :: _ | .chunk (.word _) :: _ | .chunk (.punct _) :: _ =>
    obtain ⟨rfl, rfl⟩ := Prod.mk.inj (Option.some.inj h)
    exact ⟨[], rfl, .inl rfl⟩

/-- One more piece at the front. -/
theorem exists_taken_cons {chunk : Chunk} (hchunk : ∀ word, chunk ≠ .word word)
    {input rest : List Lexeme}
    (h : ∃ taken : List Chunk, input = taken.map .chunk ++ rest ∧
      ∀ chunk ∈ taken, ∀ word, chunk ≠ .word word) :
    ∃ taken : List Chunk, .chunk chunk :: input = taken.map .chunk ++ rest ∧
      ∀ chunk ∈ taken, ∀ word, chunk ≠ .word word := by
  obtain ⟨taken, rfl, hwords⟩ := h
  refine ⟨chunk :: taken, rfl, ?_⟩
  rw [List.forall_mem_cons]
  exact ⟨hchunk, hwords⟩

theorem run_parseElements {text : AttrText} {elements : List FormatElement}
    {input rest : List Lexeme} {out : List (String × ParamAttr)}
    (h : (parseElements text elements).run input = some (out, rest)) :
    Ran elements input rest out := by
  induction elements generalizing input out with
  | nil =>
    obtain ⟨rfl, rfl⟩ := Prod.mk.inj (Option.some.inj h)
    exact ⟨by simp, ⟨[], rfl, by simp⟩, rfl, by simp⟩
  | cons element elements ih =>
    cases element with
    | literal word =>
      obtain ⟨_, mid, hword, hmore⟩ := run_bind_eq_some.mp h
      obtain ⟨hkeyword, rfl⟩ := run_parseLiteral hword
      have htail := ih hmore
      refine ⟨fun other hother ↦ ?_, exists_taken_cons (by simp) htail.taken, htail.names, ?_⟩
      · rw [List.mem_cons, FormatElement.literal.injEq] at hother
        cases hother with
        | inl heq => exact heq ▸ hkeyword
        | inr hmem => exact htail.literals other hmem
      · intro name hname
        exact htail.dims name (by simpa using hname)
    | parameter name =>
      obtain ⟨attr, mid, hattr, h⟩ := run_bind_eq_some.mp h
      obtain ⟨more, mid', hmore, h⟩ := run_bind_eq_some.mp h
      obtain ⟨rfl, rfl⟩ := Prod.mk.inj (Option.some.inj h)
      obtain rfl := run_parseAttribute hattr
      have htail := ih hmore
      refine ⟨fun word hword ↦ htail.literals word (by simpa using hword),
        exists_taken_cons (by simp) htail.taken, ?_, fun other hother ↦ ?_⟩
      · exact congrArg (name :: ·) htail.names
      · obtain ⟨dims, hdims⟩ := htail.dims other (by simpa using hother)
        exact ⟨dims, List.mem_cons_of_mem _ hdims⟩
    | dims name =>
      obtain ⟨attr, mid, hattr, h⟩ := run_bind_eq_some.mp h
      obtain ⟨more, mid', hmore, h⟩ := run_bind_eq_some.mp h
      obtain ⟨rfl, rfl⟩ := Prod.mk.inj (Option.some.inj h)
      obtain ⟨dims, rfl, hinput⟩ := run_parseDimensionList hattr
      have htail := ih hmore
      refine ⟨fun word hword ↦ htail.literals word (by simpa using hword), ?_, ?_,
        fun other hother ↦ ?_⟩
      · cases hinput with
        | inl heq => exact heq ▸ htail.taken
        | inr hprinted =>
          obtain ⟨printed, rfl⟩ := hprinted
          exact exists_taken_cons (by simp) htail.taken
      · exact congrArg (name :: ·) htail.names
      · rw [List.mem_cons, FormatElement.dims.injEq] at hother
        cases hother with
        | inl heq => exact ⟨dims, by simp [heq]⟩
        | inr hmem =>
          obtain ⟨dims', hdims'⟩ := htail.dims other hmem
          exact ⟨dims', List.mem_cons_of_mem _ hdims'⟩

/-! ## Round trips -/

section RoundTrip

variable (text : AttrText) (name : String) (params : List String) (elements : List FormatElement)
  (values : List ParamAttr)

/-- The whole printed text is read back, with all values in their order. -/
def RoundTrips : Prop :=
  ∃ chunks, genPrinter name params elements values = some chunks ∧
    (parseType text name params elements).run (lex text chunks) = some (values, [])

/-- Where the printed pieces are read back one by one. -/
structure Readable : Prop where
  keyword : Spec.isKeyword name = true
  readable : ∀ element ∈ elements, element.Readable params values
  apart : (Chunk.word name :: elements.filterMap (piece params values)).IsChain
    fun chunk next ↦ glued text chunk next = false

variable {text name params elements values}

theorem getParameter_isSome (hlength : params.length = values.length) {name : String}
    (hmem : name ∈ params) : (getParameter params values name).isSome = true := by
  induction params generalizing values with
  | nil => cases hmem
  | cons first params ih =>
    obtain ⟨value, values, rfl⟩ := List.exists_cons_of_length_eq_add_one hlength.symm
    by_cases hname : name = first
    · rw [hname, getParameter_cons_self]
      rfl
    · rw [getParameter_cons_of_ne hname]
      exact ih (Nat.succ.inj hlength) ((List.mem_cons.mp hmem).resolve_left hname)

theorem Readable.roundTrips (haccepted : Accepted params elements)
    (hlength : params.length = values.length) (h : Readable text name params elements values) :
    RoundTrips text name params elements values := by
  have hget : ∀ name ∈ boundNames elements, (getParameter params values name).isSome = true :=
    fun name hname ↦ getParameter_isSome hlength ((haccepted.mem_iff name).mp hname)
  obtain ⟨pieces, hpieces, hflatten⟩ := Option.map_eq_some_iff.mp
    (mapM_printElement h.readable hget)
  refine ⟨.word name :: elements.filterMap (piece params values), ?_, ?_⟩
  · rw [genPrinter, hpieces, ← hflatten]
    rfl
  · have hvalues : params.mapM (fun name ↦
        (assigned params values (boundNames elements)).lookup name) = some values := by
      rw [mapM_eq_some_iff haccepted.params_nodup hlength]
      intro name hname
      exact ⟨lookup_assigned ((haccepted.mem_iff name).mpr hname),
        getParameter_isSome hlength hname⟩
    have hread : Reads (genParser text params elements)
        ((elements.filterMap (piece params values)).map .chunk) values [] := by
      apply Reads.bind_pure (reads_elements text h.readable hget [])
      rw [hvalues]
      rfl
    rw [Reads, List.append_nil] at hread
    have hname : Reads parseTypeName [.chunk (.word name)] name
        ((elements.filterMap (piece params values)).map .chunk) :=
      Reads.token (by simp [h.keyword]) _
    rw [lex_eq_map_iff.mpr ⟨rfl, h.apart⟩, List.map_cons, ← List.singleton_append, parseType,
      Reads.run_bind hname, if_pos rfl]
    exact hread

/-- The pieces that the parser took were apart from each other. -/
theorem taken_of_run {chunks : List Chunk} {out : List ParamAttr}
    (hrun : (parseType text name params elements).run (lex text (.word name :: chunks)) =
      some (out, [])) :
    Spec.isKeyword name = true ∧
      (Chunk.word name :: chunks).IsChain (fun chunk next ↦ glued text chunk next = false) ∧
      ∃ env, Ran elements (chunks.map .chunk) [] env ∧
        params.mapM (fun name ↦ env.lookup name) = some out := by
  obtain ⟨name', rest, hname, hparse⟩ := run_bind_eq_some.mp hrun
  clear hrun
  split_ifs at hparse with heq
  · subst heq
    obtain ⟨env, mid, henv, hparams⟩ := run_bind_eq_some.mp hparse
    have hran := run_parseElements henv
    obtain ⟨taken, rfl, hwords⟩ := hran.taken
    have hvalues : params.mapM (fun name ↦ env.lookup name) = some out ∧ mid = [] := by
      cases hmapM : params.mapM (fun name ↦ env.lookup name) with
      | none =>
        rw [hmapM] at hparams
        cases hparams
      | some out' =>
        rw [hmapM] at hparams
        obtain ⟨rfl, rfl⟩ := Prod.mk.inj (Option.some.inj hparams)
        exact ⟨rfl, rfl⟩
    obtain ⟨hvalues, rfl⟩ := hvalues
    rw [List.append_nil] at hname hran
    have hlex : Spec.isKeyword name' = true ∧
        lex text (.word name' :: chunks) = (Chunk.word name' :: taken).map .chunk := by
      cases hinput : lex text (.word name' :: chunks) with
      | nil =>
        rw [hinput] at hname
        cases hname
      | cons lexeme lexemes =>
        rw [hinput] at hname
        match lexeme with
        | .chunk (.word word) =>
          simp only [parseTypeName, token, StateT.run, Option.map_eq_some_iff, Option.ite_none_right_eq_some,
            Prod.mk.injEq] at hname
          obtain ⟨word', ⟨hkeyword, hword⟩, rfl, rfl⟩ := hname
          obtain rfl := Option.some.inj hword
          exact ⟨hkeyword, rfl⟩
        | .error | .chunk (.punct _) | .chunk (.attr _) | .chunk (.dims _) => cases hname
    obtain ⟨hkeyword, hlex⟩ := hlex
    obtain ⟨htaken, happart⟩ := lex_eq_map_iff.mp hlex
    obtain ⟨-, rfl⟩ := List.cons.inj htaken
    exact ⟨hkeyword, happart, env, hran, hvalues⟩
  · cases hparse

theorem mem_of_mapM_eq_some {α β : Type} {f : α → Option β} {l : List α} {l' : List β}
    (h : l.mapM f = some l') {a : α} (ha : a ∈ l) : ∃ b ∈ l', f a = some b := by
  induction l generalizing l' with
  | nil => cases ha
  | cons first l ih =>
    rw [List.mapM_cons] at h
    obtain ⟨b, hb, h⟩ := Option.bind_eq_some_iff.mp h
    obtain ⟨more, hmore, h⟩ := Option.bind_eq_some_iff.mp h
    obtain rfl := Option.some.inj h
    cases List.mem_cons.mp ha with
    | inl heq => exact ⟨b, List.mem_cons_self .., heq ▸ hb⟩
    | inr htail =>
      obtain ⟨c, hc, hfc⟩ := ih hmore htail
      exact ⟨c, List.mem_cons_of_mem _ hc, hfc⟩

theorem lookup_eq_some_of_mem {env : List (String × ParamAttr)} {name : String}
    {attr : ParamAttr} (hnodup : (env.map Prod.fst).Nodup)
    (hmem : (name, attr) ∈ env) : env.lookup name = some attr := by
  induction env with
  | nil => cases hmem
  | cons entry env ih =>
    rw [List.map_cons, List.nodup_cons] at hnodup
    rw [List.lookup_cons]
    cases List.mem_cons.mp hmem with
    | inl heq => simp [← heq]
    | inr htail =>
      have hne : name ≠ entry.1 := by
        rintro rfl
        exact hnodup.1 (List.mem_map.mpr ⟨_, htail, rfl⟩)
      rw [beq_false_of_ne hne]
      exact ih hnodup.2 htail

theorem RoundTrips.readable (haccepted : Accepted params elements)
    (hlength : params.length = values.length) (h : RoundTrips text name params elements values) :
    Readable text name params elements values := by
  obtain ⟨chunks, hprint, hrun⟩ := h
  obtain ⟨pieces, hpieces, hchunks⟩ := Option.bind_eq_some_iff.mp hprint
  obtain rfl := Option.some.inj hchunks
  obtain ⟨hkeyword, hapart, env, hran, hvalues⟩ := taken_of_run hrun
  rw [mapM_eq_some_iff haccepted.params_nodup hlength] at hvalues
  have hnodup : (env.map Prod.fst).Nodup := by
    rw [hran.names]
    exact haccepted.nodup
  have hreadable : ∀ element ∈ elements, element.Readable params values := by
    intro element helement
    cases element with
    | literal word => exact hran.literals word helement
    | parameter other => trivial
    | dims other =>
      obtain ⟨dims, hdims⟩ := hran.dims other helement
      have hbound : other ∈ boundNames elements := List.mem_filterMap.mpr ⟨_, helement, rfl⟩
      have hget := (hvalues other ((haccepted.mem_iff other).mp hbound)).1
      rw [lookup_eq_some_of_mem hnodup hdims] at hget
      refine ⟨dims, ?_, hget.symm⟩
      -- an empty list is printed as a word, which the parser does not take
      rintro rfl
      obtain ⟨taken, htaken, hwords⟩ := hran.taken
      rw [List.append_nil] at htaken
      have hx : printElement params values (.dims other) = some [.word "x"] := by
        rw [printElement, ← hget]
        rfl
      obtain ⟨piece, hpiece, hprinted⟩ := mem_of_mapM_eq_some hpieces helement
      rw [hx, Option.some.injEq] at hprinted
      have hmem : Chunk.word "x" ∈ pieces.flatten :=
        List.mem_flatten.mpr ⟨piece, hpiece, by simp [← hprinted]⟩
      rw [List.map_injective_iff.mpr (fun _ _ ↦ Lexeme.chunk.inj) htaken] at hmem
      exact hwords _ hmem "x" rfl
  refine ⟨hkeyword, hreadable, ?_⟩
  have hget : ∀ name ∈ boundNames elements, (getParameter params values name).isSome = true :=
    fun name hname ↦ getParameter_isSome hlength ((haccepted.mem_iff name).mp hname)
  have hflatten := mapM_printElement hreadable hget
  rw [hpieces, Option.map_some, Option.some.injEq] at hflatten
  rwa [← hflatten]

end RoundTrip

/-- Integers, with their types after a colon, and strings. -/
def AttrText.base : AttrText where
  extendedBy
    | .i64 _, .word _ | .i64 _, .dims _ | .i64 _, .attr (.i64 _) => true
    | .other _, .punct ":" => true
    | _, _ => false
  startsWord
    | .i64 value => 0 ≤ value.toInt
    | _ => false
  startsInteger
    | .i64 value => 0 ≤ value.toInt
    | _ => false

end DeclarativeMlir.Embed
